import Mathlib.Algebra.Group.Action.Defs
import Mathlib.Algebra.Order.BigOperators.Group.List
import Mathlib.Algebra.Order.Ring.Nat
import Volley.Proofs.Run.Trace

/-! A measure of the users that every turn lowers bounds the moves of a run (`countP_moves_le`). -/

namespace Volley.Run

variable {setup : Setup} {s t last : State} {move : Move} {moves : List Move} {count bound : Nat}
  {assumed : State → Prop} {weight : User → Nat}

def State.Able (setup : Setup) (s : State) : Prop :=
  ∀ u ∈ s.users, u.phase = .ready → (s.decide setup u).isSome = true

theorem State.able_of_told (told : s.channel.value = true) : s.Able setup := by
  intro u _ ready
  simp [State.decide, ready, told]

theorem User.move?_isSome {u : User} (user : s.users[u.id]? = some u)
    (decides : u.phase = .ready → (s.decide setup u).isSome = true)
    (chosen : u.move? s.now s.channel = some move) :
    move.isSignal = false ∧ (s.move? setup move).isSome = true := by
  cases phase : u.phase with
  | fresh =>
      simp only [User.move?, phase, Option.some.injEq] at chosen
      subst chosen
      exact ⟨rfl, by simp [State.move?, user, State.start, phase]⟩
  | ready =>
      simp only [User.move?, phase, Option.some.injEq] at chosen
      subst chosen
      exact ⟨rfl, by simpa [State.move?, user] using decides phase⟩
  | calling push reply ends =>
      simp only [User.move?, phase, Option.ite_none_right_eq_some, Option.some.injEq] at chosen
      obtain ⟨due, rfl⟩ := chosen
      refine ⟨rfl, ?_⟩
      have present : ¬ s.now < ends := Nat.not_lt_of_le due
      simp only [State.move?, user, Option.bind_some, State.settle, phase, if_neg present]
      cases setup.delivery.settle push reply <;> rfl
  | thinking ends =>
      simp only [User.move?, phase] at chosen
      split at chosen
      · rename_i news
        cases chosen
        exact ⟨rfl, by simp [State.move?, user, State.interrupt, phase, news]⟩
      · split at chosen
        · rename_i due
          cases chosen
          have present : ¬ s.now < ends := Nat.not_lt_of_le due
          exact ⟨rfl, by simp [State.move?, user, State.wake, phase, present]⟩
        · cases chosen
  | done => simp [User.move?, phase] at chosen
  | crashed message => simp [User.move?, phase] at chosen

theorem User.exists_due {u : User} {now : Nat} {c : Channel} (active : u.phase.isOver = false)
    (waits : u.move? now c = none) : ∃ due, u.due? now c = some due ∧ now < due := by
  cases phase : u.phase with
  | fresh => simp [User.move?, phase] at waits
  | ready => simp [User.move?, phase] at waits
  | calling push reply ends =>
      simp only [User.move?, phase, ite_eq_right_iff, reduceCtorEq, imp_false] at waits
      exact ⟨ends, by simp [User.due?, phase], Nat.lt_of_not_le waits⟩
  | thinking ends =>
      simp only [User.move?, phase] at waits
      split at waits
      · cases waits
      · rename_i quiet
        simp only [ite_eq_right_iff, reduceCtorEq, imp_false] at waits
        exact ⟨ends, by simp [User.due?, phase, quiet], Nat.lt_of_not_le waits⟩
  | done => simp [phase, Phase.isOver] at active
  | crashed message => simp [phase, Phase.isOver] at active

theorem User.due?_eq_none {u : User} {now : Nat} {c : Channel} (ended : u.phase.isOver = true) :
    u.due? now c = none := by
  cases phase : u.phase <;> simp_all [User.due?, Phase.isOver]

theorem State.exists_advance (goesOn : s.isOver = false)
    (waits : ∀ u ∈ s.users, u.move? s.now s.channel = none) :
    ∃ due, (s.users.filterMap fun u => u.due? s.now s.channel).min? = some due ∧ s.now < due ∧
      ∀ time, s.now < time → time ≤ due → (s.move? setup (.advance time)).isSome = true := by
  have later : ∀ due ∈ s.users.filterMap fun u => u.due? s.now s.channel, s.now < due := by
    intro due listed
    obtain ⟨u, member, waited⟩ := List.mem_filterMap.1 listed
    cases active : u.phase.isOver with
    | true => simp [User.due?_eq_none active] at waited
    | false =>
        obtain ⟨_, same, later⟩ := User.exists_due active (waits u member)
        rw [waited] at same
        cases same
        exact later
  obtain ⟨u, member, active⟩ : ∃ u ∈ s.users, u.phase.isOver = false := by
    simpa [State.isOver] using goesOn
  obtain ⟨first, waited, -⟩ := User.exists_due active (waits u member)
  have listed : first ∈ s.users.filterMap fun u => u.due? s.now s.channel :=
    List.mem_filterMap.2 ⟨u, member, waited⟩
  cases least : (s.users.filterMap fun u => u.due? s.now s.channel).min? with
  | none =>
      rw [List.min?_eq_none_iff.1 least] at listed
      cases listed
  | some due =>
      obtain ⟨among, lowest⟩ := List.min?_eq_some_iff.1 least
      refine ⟨due, rfl, later due among, fun time after before => ?_⟩
      have quiet : s.isQuietBefore time = true := by
        refine List.all_eq_true.2 fun v inside => ?_
        cases waited : v.due? s.now s.channel with
        | none => rfl
        | some other =>
            have listed : other ∈ s.users.filterMap fun u => u.due? s.now s.channel :=
              List.mem_filterMap.2 ⟨v, inside, waited⟩
            exact decide_eq_true (Nat.le_trans before (lowest other listed))
      simp [State.move?, after, goesOn, quiet]

theorem exists_nextMove (numbered : s.Numbered count) (able : s.Able setup)
    (goesOn : s.isOver = false) (timeline : Timeline) :
    ∃ move later, nextMove s timeline = some (move, later) ∧
      (s.move? setup move).isSome = true ∧
      (move.isSignal = true ∧ timeline.length = later.length + 1 ∨
        move.isSignal = false ∧ later = timeline) := by
  cases chosen : s.users.findSome? fun u => u.move? s.now s.channel with
  | some move =>
      obtain ⟨u, member, chosen'⟩ := List.exists_of_findSome?_eq_some chosen
      obtain ⟨silent, possible⟩ :=
        User.move?_isSome (numbered.mem_iff.1 member) (able u member) chosen'
      cases timeline with
      | nil => exact ⟨move, [], by simp [nextMove, chosen], possible, .inr ⟨silent, rfl⟩⟩
      | cons first rest =>
          obtain ⟨time, signal⟩ := first
          by_cases given : time ≤ s.now
          · exact ⟨.signal signal, rest, by simp [nextMove, given], rfl, .inl ⟨rfl, rfl⟩⟩
          · exact ⟨move, _, by simp [nextMove, given, chosen], possible, .inr ⟨silent, rfl⟩⟩
  | none =>
      obtain ⟨due, least, later, possible⟩ :=
        State.exists_advance goesOn (List.findSome?_eq_none_iff.1 chosen)
      cases timeline with
      | nil =>
          exact ⟨.advance due, [], by simp [nextMove, chosen, least],
            possible due later (Nat.le_refl due), .inr ⟨rfl, rfl⟩⟩
      | cons first rest =>
          obtain ⟨time, signal⟩ := first
          by_cases given : time ≤ s.now
          · exact ⟨.signal signal, rest, by simp [nextMove, given], rfl, .inl ⟨rfl, rfl⟩⟩
          · have after : s.now < min time due := Nat.lt_min.2 ⟨Nat.lt_of_not_le given, later⟩
            exact ⟨.advance (min time due), _, by simp [nextMove, given, chosen, least],
              possible _ after (Nat.min_le_right time due), .inr ⟨rfl, rfl⟩⟩

theorem exists_move_of_able (numbered : s.Numbered count) (able : s.Able setup)
    (goesOn : s.isOver = false) :
    ∃ move, move.isSignal = false ∧ (s.move? setup move).isSome = true := by
  obtain ⟨move, later, -, possible, given⟩ := exists_nextMove numbered able goesOn []
  rcases given with ⟨-, impossible⟩ | ⟨silent, -⟩
  · cases impossible
  · exact ⟨move, silent, possible⟩

def State.total (weight : User → Nat) (s : State) : Nat := (s.users.map weight).sum

theorem State.total_le (numbered : s.Numbered count) (limited : ∀ u ∈ s.users, weight u ≤ bound) :
    s.total weight ≤ count * bound := by
  have each : ∀ n ∈ s.users.map weight, n ≤ bound := by
    intro n listed
    obtain ⟨u, member, rfl⟩ := List.mem_map.1 listed
    exact limited u member
  have sum := List.sum_le_card_nsmul _ bound each
  rwa [List.length_map, numbered.length_users, smul_eq_mul] at sum

theorem sum_map_set {α : Type} (f : α → Nat) {items : List α} {i : Nat} {a : α}
    (place : items[i]? = some a) (b : α) :
    ((items.set i b).map f).sum + f a = (items.map f).sum + f b := by
  induction items generalizing i with
  | nil => cases place
  | cons item rest ih =>
      cases i with
      | zero =>
          cases place
          simp only [List.set_cons_zero, List.map_cons, List.sum_cons]
          omega
      | succ i =>
          have rest := ih place
          simp only [List.set_cons_succ, List.map_cons, List.sum_cons]
          omega

theorem State.Turn.total_lt {i : Nat} {u v : User} {sent : Option Push} {outcome : Option Outcome}
    (turn : s.Turn setup i u sent outcome v t) (numbered : s.Numbered count)
    (lower : weight v < weight u) : t.total weight < s.total weight := by
  have change := sum_map_set weight turn.user v
  simp only [State.total, turn.users, numbered.id_eq turn.user]
  omega

theorem Move.isSignal_eq_false {i : Nat} (mover : move.user? = some i) : move.isSignal = false := by
  cases move with
  | signal signal => cases mover
  | _ => rfl

def Lowers (setup : Setup) (assumed : State → Prop) (weight : User → Nat) : Prop :=
  ∀ {s : State} {u v : User} {sent : Option Push} {outcome : Option Outcome}, assumed s →
    u ∈ s.users → u.Step setup s sent outcome v → weight v < weight u

theorem State.Step.left_le (step : s.Step setup move t) (numbered : s.Numbered count)
    (lowers : Lowers setup assumed weight) (before : assumed s) (bounded : t.now ≤ bound) :
    (move.isSignal = true ∧ t.total weight + (bound - t.now) ≤ s.total weight + (bound - s.now)) ∨
      (move.isSignal = false ∧
        t.total weight + (bound - t.now) < s.total weight + (bound - s.now)) := by
  cases step with
  | turn mover returned turn =>
      have lower := lowers before (List.mem_of_getElem? turn.user) turn.step
      have less := turn.total_lt numbered lower
      rw [turn.now]
      exact .inr ⟨Move.isSignal_eq_false mover, by omega⟩
  | signal signal => exact .inl ⟨rfl, Nat.le_refl _⟩
  | @advance time later goesOn quiet =>
      have less : bound - time < bound - s.now := by
        dsimp only at bounded
        omega
      exact .inr ⟨rfl, Nat.add_lt_add_left less _⟩

/-- Up to the end at `bound` each move but the signals takes from what is left to do. -/
theorem countP_moves_le (lowers : Lowers setup assumed weight) (numbered : s.Numbered count)
    (always : s.Throughout setup moves fun s => assumed s ∧ s.now ≤ bound)
    (run : s.after? setup moves = some last) :
    moves.countP (!·.isSignal) + last.total weight + (bound - last.now) ≤
      s.total weight + (bound - s.now) := by
  induction moves generalizing s with
  | nil =>
      cases run
      simp
  | cons move rest ih =>
      simp only [State.after?, Option.bind_eq_some_iff] at run
      obtain ⟨t, made, run⟩ := run
      have step := State.step_of_move? made
      have rest := State.throughout_rest always made
      have left := ih (numbered.step step) rest run
      obtain ⟨before, -⟩ := State.throughout_start always
      obtain ⟨-, bounded⟩ := State.throughout_start rest
      rcases step.left_le numbered lowers before bounded with ⟨signal, less⟩ | ⟨silent, less⟩
      · rw [List.countP_cons_of_neg (by simp [signal])]
        omega
      · rw [List.countP_cons_of_pos (by simp [silent])]
        omega

theorem exists_run (lowers : Lowers setup assumed weight) {rounds : Nat} {timeline : Timeline}
    (numbered : s.Numbered count)
    (always : ∀ moves t, s.after? setup moves = some t →
      assumed t ∧ t.Able setup ∧ t.now ≤ bound)
    (enough : s.total weight + (bound - s.now) + timeline.length < rounds) :
    ∃ last, s.run setup rounds timeline = some last := by
  -- A round makes a move or uses up a signal that was to come.
  induction rounds generalizing s timeline with
  | zero => omega
  | succ rounds ih =>
      unfold State.run
      cases goesOn : s.isOver with
      | true => exact ⟨s, rfl⟩
      | false =>
          obtain ⟨before, able, -⟩ := always [] s rfl
          obtain ⟨move, later, next, possible, given⟩ :=
            exists_nextMove numbered able goesOn timeline
          obtain ⟨t, made⟩ := Option.isSome_iff_exists.1 possible
          have step := State.step_of_move? made
          have after : ∀ moves u, t.after? setup moves = some u →
              assumed u ∧ u.Able setup ∧ u.now ≤ bound := by
            intro moves u reached
            exact always (move :: moves) u (by simp [State.after?, made, reached])
          obtain ⟨-, -, bounded⟩ := after [] t rfl
          have fewer : t.total weight + (bound - t.now) + later.length < rounds := by
            rcases step.left_le numbered lowers before bounded with ⟨signal, less⟩ | ⟨silent, less⟩
            · rcases given with ⟨-, shorter⟩ | ⟨contrary, -⟩
              · omega
              · simp [signal] at contrary
            · rcases given with ⟨contrary, -⟩ | ⟨-, rfl⟩
              · simp [silent] at contrary
              · omega
          obtain ⟨last, run⟩ := ih (numbered.step step) after fewer
          exact ⟨last, by simp [next, made, run]⟩

end Volley.Run
