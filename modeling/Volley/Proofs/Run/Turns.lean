import Mathlib.Data.List.Induction
import Volley.Proofs.Run.Timely

/-! What is said about the turns of a run is shown by induction on the last move. -/

namespace Volley.Run

variable {setup : Setup} {s t start last : State} {move : Move} {moves : List Move} {count : Nat}
  {words : Nat → WordSource}

structure Turned where
  user : Nat
  time : Nat
  phase : Phase
  deriving DecidableEq

def turnsOf (user : Nat) (turns : List Turned) : List Turned := turns.filter (·.user = user)

def Phase.isCalling : Phase → Bool
  | .calling .. => true
  | _ => false

def Phase.isThinking : Phase → Bool
  | .thinking _ => true
  | _ => false

def timesOf (kind : Phase → Bool) (turns : List Turned) : List Nat :=
  (turns.filter fun turn => kind turn.phase).map (·.time)

def endOf (turns : List Turned) : Option Nat := turns.getLast?.map (·.time)

namespace State

def turned? (setup : Setup) (s : State) (move : Move) : Option Turned := do
  let i ← move.user?
  let u ← (← s.move? setup move).users[i]?
  return ⟨i, s.now, u.phase⟩

def turns (setup : Setup) (s : State) : List Move → List Turned
  | [] => []
  | move :: rest =>
    (s.turned? setup move).toList ++
      match s.move? setup move with
      | some t => t.turns setup rest
      | none => []

theorem after?_concat :
    start.after? setup (moves ++ [move]) = some t ↔
      ∃ s, start.after? setup moves = some s ∧ s.move? setup move = some t := by
  simp [after?_append, after?, Option.bind_eq_some_iff]

theorem turns_concat (run : start.after? setup moves = some s) :
    start.turns setup (moves ++ [move]) =
      start.turns setup moves ++ (s.turned? setup move).toList := by
  induction moves generalizing start with
  | nil =>
      cases run
      cases made : s.move? setup move <;> simp [turns, made]
  | cons first rest ih =>
      simp only [after?, Option.bind_eq_some_iff] at run
      obtain ⟨next, made, run⟩ := run
      simp only [List.cons_append, turns, made, ih run, List.append_assoc]

theorem run_induction_throughout (assumed : State → Prop) (property : List Move → State → Prop)
    (always : start.Throughout setup moves assumed) (initially : property [] start)
    (kept : ∀ {moves : List Move} {s : State} {move : Move} {t : State},
      start.after? setup moves = some s → assumed s → assumed t → property moves s →
        s.move? setup move = some t → property (moves ++ [move]) t)
    (run : start.after? setup moves = some last) : property moves last := by
  -- The property is about the state and all moves that led to it.
  induction moves using List.reverseRecOn generalizing last with
  | nil =>
      cases run
      exact initially
  | append_singleton moves move ih =>
      obtain ⟨s, before, made⟩ := after?_concat.1 run
      have earlier : start.Throughout setup moves assumed :=
        fun passed first => always passed (first.trans (List.prefix_append moves [move]))
      have assumedBefore := earlier moves (List.prefix_refl moves) s before
      have assumedAfter := always _ (List.prefix_refl _) last run
      exact kept before assumedBefore assumedAfter (ih earlier before) made

theorem run_induction (property : List Move → State → Prop) (initially : property [] start)
    (kept : ∀ {moves : List Move} {s : State} {move : Move} {t : State},
      start.after? setup moves = some s → property moves s → s.move? setup move = some t →
        property (moves ++ [move]) t)
    (run : start.after? setup moves = some last) : property moves last :=
  run_induction_throughout (fun _ => True) property (fun _ _ _ _ => trivial) initially
    (fun before _ _ => kept before) run

theorem turned?_of_turn {i : Nat} {u v : User} {sent : Option Push} {outcome : Option Outcome}
    (turn : Turn setup s i u sent outcome v t) (numbered : s.Numbered count)
    (made : s.move? setup move = some t) (mover : move.user? = some i) :
    s.turned? setup move = some ⟨i, s.now, v.phase⟩ := by
  have user : t.users[i]? = some v := by rw [turn.getElem?_users numbered i, if_pos rfl]
  simp [turned?, mover, made, user]

theorem turned?_eq_none (idle : move.user? = none) : s.turned? setup move = none := by
  simp [turned?, idle]

theorem turn_cases {w : User} (numbered : s.Numbered count) (made : s.move? setup move = some t)
    (member : w ∈ t.users) :
    (∃ u sent outcome, Turn setup s w.id u sent outcome w t ∧
      turnsOf w.id (s.turned? setup move).toList = [⟨w.id, s.now, w.phase⟩]) ∨
    (w ∈ s.users ∧ t.pushesOf w.id = s.pushesOf w.id ∧
      turnsOf w.id (s.turned? setup move).toList = [] ∧
      (t.now = s.now ∨ s.now < t.now ∧ s.isQuietBefore t.now = true)) := by
  have step := step_of_move? made
  have numberedAfter := numbered.step step
  cases step with
  | @turn _ i u v sent outcome t mover returned turn =>
      have turned := turned?_of_turn turn numbered made mover
      have user := (turn.getElem?_users numbered w.id).symm.trans (numberedAfter.mem_iff.1 member)
      by_cases same : w.id = i
      · rw [if_pos same] at user
        cases user
        subst same
        exact .inl ⟨u, sent, outcome, turn, by simp [turned, turnsOf]⟩
      · rw [if_neg same] at user
        have posted := turn.pushesOf numbered w.id
        rw [if_neg same, List.append_nil] at posted
        exact .inr ⟨List.mem_of_getElem? user, posted, by simp [turned, turnsOf, Ne.symm same],
          .inl turn.now⟩
  | signal signal =>
      exact .inr ⟨member, rfl, by rw [turned?_eq_none rfl]; rfl, .inl rfl⟩
  | advance later goesOn quiet =>
      exact .inr ⟨member, rfl, by rw [turned?_eq_none rfl]; rfl, .inr ⟨later, quiet⟩⟩

end State

theorem turnsOf_append (user : Nat) (turns more : List Turned) :
    turnsOf user (turns ++ more) = turnsOf user turns ++ turnsOf user more :=
  List.filter_append turns more

theorem timesOf_concat (kind : Phase → Bool) (turns : List Turned) (turn : Turned) :
    timesOf kind (turns ++ [turn]) =
      timesOf kind turns ++ if kind turn.phase then [turn.time] else [] := by
  cases chosen : kind turn.phase <;> simp [timesOf, chosen]

theorem endOf_concat (turns : List Turned) (turn : Turned) :
    endOf (turns ++ [turn]) = some turn.time := by
  simp [endOf]

theorem User.Step.ends_of_thinking {u v : User} {sent : Option Push} {outcome : Option Outcome}
    (step : u.Step setup s sent outcome v) {ends : Nat} (thinking : v.phase = .thinking ends) :
    ∃ pause, setup.thinkTime = some pause ∧ ends = setup.wakeTime s.now pause := by
  cases step with
  | goOn calling due settled => exact Setup.ends_of_resume thinking
  | _ => cases thinking

theorem turn_of_mem_turns (initial : start.IsInitial words count)
    (run : start.after? setup moves = some last) :
    ∀ turn ∈ start.turns setup moves, turn.time ≤ last.now ∧
      ∃ s t u sent outcome v, State.Turn setup s turn.user u sent outcome v t ∧
        turn.time = s.now ∧ turn.phase = v.phase := by
  refine State.run_induction (fun moves last => ∀ turn ∈ start.turns setup moves,
    turn.time ≤ last.now ∧ ∃ s t u sent outcome v, State.Turn setup s turn.user u sent outcome v t ∧
      turn.time = s.now ∧ turn.phase = v.phase) (by simp [State.turns]) ?_ run
  intro moves s move t before earlier made turn member
  have numbered := initial.numbered.after? before
  have step := State.step_of_move? made
  have later := step.now_le
  rw [State.turns_concat before, List.mem_append, Option.mem_toList] at member
  rcases member with old | new
  · exact ⟨Nat.le_trans (earlier turn old).1 later, (earlier turn old).2⟩
  · cases step with
    | turn mover returned taken =>
        rw [State.turned?_of_turn taken numbered made mover] at new
        cases new
        exact ⟨later, s, t, _, _, _, _, taken, rfl, rfl⟩
    | signal signal =>
        rw [State.turned?_eq_none rfl] at new
        cases new
    | advance later goesOn quiet =>
        rw [State.turned?_eq_none rfl] at new
        cases new

theorem ends_of_pause (initial : start.IsInitial words count)
    (run : start.after? setup moves = some last) {turn : Turned}
    (among : turn ∈ start.turns setup moves) {ends : Nat} (thinking : turn.phase = .thinking ends) :
    ∃ pause, setup.thinkTime = some pause ∧ ends = setup.wakeTime turn.time pause := by
  obtain ⟨-, s, t, u, sent, outcome, v, taken, time, phase⟩ :=
    turn_of_mem_turns initial run turn among
  rw [time]
  exact taken.step.ends_of_thinking (phase.symm.trans thinking)

theorem phase_of_last_turn (initial : start.IsInitial words count)
    (run : start.after? setup moves = some last) :
    ∀ u ∈ last.users, ∀ turn, (turnsOf u.id (start.turns setup moves)).getLast? = some turn →
      u.phase = turn.phase := by
  refine State.run_induction (fun moves s => ∀ u ∈ s.users, ∀ turn,
    (turnsOf u.id (start.turns setup moves)).getLast? = some turn → u.phase = turn.phase)
    (by simp [State.turns, turnsOf]) ?_ run
  intro moves s move t before earlier made w member turn lastTurn
  have numbered := initial.numbered.after? before
  rw [State.turns_concat before, turnsOf_append] at lastTurn
  rcases State.turn_cases numbered made member with
    ⟨u, sent, outcome, -, turned⟩ | ⟨unchanged, -, turned, -⟩
  · rw [turned, List.getLast?_concat] at lastTurn
    cases lastTurn
    rfl
  · rw [turned, List.append_nil] at lastTurn
    exact earlier w unchanged turn lastTurn

theorem le_now_of_end (initial : start.IsInitial words count)
    (run : start.after? setup moves = some last) {user ended : Nat}
    (leaves : endOf (turnsOf user (start.turns setup moves)) = some ended) :
    ended ≤ last.now := by
  obtain ⟨turn, among, time⟩ := Option.map_eq_some_iff.1 leaves
  rw [← time]
  exact (turn_of_mem_turns initial run turn (List.mem_filter.1 (List.mem_of_getLast? among)).1).1

theorem last_turn_of_run (initial : start.IsInitial words count)
    (run : start.after? setup moves = some last) (allOver : last.isOver = true) :
    (last.users = [] ∧ last.now = 0) ∨
      ∃ u ∈ last.users, endOf (turnsOf u.id (start.turns setup moves)) = some last.now := by
  refine State.run_induction (fun moves s => s.isOver = true → (s.users = [] ∧ s.now = 0) ∨
    ∃ u ∈ s.users, endOf (turnsOf u.id (start.turns setup moves)) = some s.now) ?_ ?_ run allOver
  · intro allOver
    refine .inl ⟨List.eq_nil_iff_forall_not_mem.2 fun u member => ?_, initial.now⟩
    -- No user has even started.
    have fresh : ∀ u ∈ start.users, u.phase = .fresh := initial.forall_users fun _ => rfl
    have ended := List.all_eq_true.1 allOver u member
    simp [fresh u member, Phase.isOver] at ended
  · intro moves s move t before earlier made allOver
    have numbered := initial.numbered.after? before
    have step := State.step_of_move? made
    have numberedAfter := numbered.step step
    cases step with
    | @turn _ i u v sent outcome t mover returned turn =>
        have user : t.users[i]? = some v := by rw [turn.getElem?_users numbered i, if_pos rfl]
        have same : v.id = i := numberedAfter.id_eq user
        refine .inr ⟨v, List.mem_of_getElem? user, ?_⟩
        rw [State.turns_concat before, State.turned?_of_turn turn numbered made mover,
          turnsOf_append, turn.now]
        simp [turnsOf, same, endOf]
    | signal signal =>
        rw [State.turns_concat before, State.turned?_eq_none rfl]
        simpa using earlier allOver
    | advance later goesOn quiet =>
        have still : s.isOver = true := allOver
        rw [goesOn] at still
        cases still

end Volley.Run
