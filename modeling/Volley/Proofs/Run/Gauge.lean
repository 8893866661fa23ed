import Volley.Proofs.Run.Accounting
import Volley.Proofs.Run.Turns

/-! A user raises the gauge with its first turn and lowers it with its last (`gauge_of_run`). -/

namespace Volley.Run

variable {setup : Setup} {s t start last : State} {move : Move} {moves : List Move}
  {i count : Nat} {words : Nat → WordSource}

def User.isActive (u : User) : Bool := u.phase.activity = 1

theorem Setup.resume_ne_fresh (setup : Setup) (now : Nat) : setup.resume now ≠ .fresh :=
  setup.resume_induction now nofun nofun nofun

theorem User.Step.ne_fresh {u v : User} {sent : Option Push} {outcome : Option Outcome}
    (step : u.Step setup s sent outcome v) : v.phase ≠ .fresh := by
  cases step with
  | goOn calling due settled => exact setup.resume_ne_fresh s.now
  | _ => nofun

theorem User.activity_eq (u : User) : u.phase.activity = if u.isActive then 1 else 0 := by
  rw [isActive]
  cases u.phase <;> rfl

theorem Metrics.active_shift_recorded (m : Metrics) (outcome : Option Outcome) (change : Int) :
    ((outcome.elim m m.recordOutcome).shift change).active = m.active + change := by
  cases outcome <;> rfl

theorem gauge_of_run (initial : start.IsInitial words count)
    (run : start.after? setup moves = some last) :
    last.metrics.active = start.metrics.active + last.users.countP (·.isActive) := by
  refine State.after?_invariant (fun s => s.metrics.active = start.metrics.active +
    s.users.countP (·.isActive)) ?_ initial.numbered ?_ run
  · intro s t move numbered before step
    cases step with
    | @turn _ i u v sent outcome t mover returned turn =>
        obtain ⟨inside, user⟩ := List.getElem?_eq_some_iff.1 turn.user
        rw [turn.metrics, Metrics.active_shift_recorded, before, turn.users,
          numbered.id_eq turn.user, List.countP_set inside, user, u.activity_eq, v.activity_eq]
        cases active : u.isActive with
        | true =>
            have counted : 0 < s.users.countP (·.isActive) :=
              List.countP_pos_iff.2 ⟨u, List.mem_of_getElem? turn.user, active⟩
            cases v.isActive <;> simp <;> omega
        | false => cases v.isActive <;> simp [Int.add_assoc]
    | signal signal => exact before
    | advance later goesOn quiet => exact before
  · have idle : start.users.countP (·.isActive) = 0 :=
      List.countP_eq_zero.2 (initial.forall_users fun id => by simp [User.isActive, Phase.activity])
    rw [idle]
    simp

theorem start_iff_of_turn {u : User} (made : s.move? setup move = some t)
    (mover : move.user? = some i) (user : s.users[i]? = some u) :
    move = .start i ↔ u.phase = .fresh := by
  cases move with
  | signal signal => cases mover
  | advance time => cases mover
  | _ =>
      cases mover
      simp only [State.move?, user, Option.bind_some, State.start, State.decide, State.settle,
        State.wake, State.interrupt] at made
      split at made
      · simp [*]
      · cases made

theorem fresh_iff_of_run (initial : start.IsInitial words count)
    (run : start.after? setup moves = some last) :
    ∀ u ∈ last.users, u.phase = .fresh ↔ .start u.id ∉ moves := by
  refine State.run_induction (fun moves s => ∀ u ∈ s.users, u.phase = .fresh ↔ .start u.id ∉ moves)
    (initial.forall_users fun id => by simp) ?_ run
  intro moves s move t before fresh made w member
  have numbered := initial.numbered.after? before
  have step := State.step_of_move? made
  have later := numbered.step step
  rw [List.mem_append, List.mem_singleton, not_or]
  cases step with
  | @turn _ i u v sent outcome t mover returned turn =>
      have user := (turn.getElem?_users numbered w.id).symm.trans (later.mem_iff.1 member)
      have started := start_iff_of_turn made mover turn.user
      have earlier := fresh u (List.mem_of_getElem? turn.user)
      rw [numbered.id_eq turn.user] at earlier
      split at user
      · -- Its first turn is this one, or an earlier one.
        rename_i own
        cases user
        subst own
        refine iff_of_false turn.step.ne_fresh fun ⟨never, notNow⟩ => ?_
        exact notNow (started.2 (earlier.2 never)).symm
      · rename_i other
        rw [fresh w (List.mem_of_getElem? user)]
        refine (and_iff_left_of_imp fun _ now => ?_).symm
        rw [← now] at mover
        exact other (Option.some.inj mover)
  | signal signal => simp [fresh w member]
  | advance late goesOn quiet => simp [fresh w member]

def State.underWay (s : State) (moves : List Move) : Nat :=
  s.users.countP fun u => .start u.id ∈ moves ∧ u.phase.isOver = false

theorem underWay_eq (initial : start.IsInitial words count)
    (run : start.after? setup moves = some last) :
    last.underWay moves = last.users.countP (·.isActive) := by
  refine List.countP_congr fun u member => ?_
  have fresh := fresh_iff_of_run initial run u member
  rw [decide_eq_true_eq, ← not_iff_comm.1 fresh.symm, User.isActive]
  cases u.phase <;> simp [Phase.isOver, Phase.activity]

/-- Metrics that are left by runs one after the other: each run goes on with the metrics that the
one before left, and all of its users end. -/
inductive Shared (first : Metrics) : Metrics → Prop
  | none : Shared first first
  | run {setup : Setup} {start last : State} {moves : List Move} {words : Nat → WordSource}
      {count : Nat} (earlier : Shared first start.metrics) (initial : start.IsInitial words count)
      (run : start.after? setup moves = some last) (allOver : last.isOver = true) :
      Shared first last.metrics

theorem gauge_of_isOver (initial : start.IsInitial words count)
    (run : start.after? setup moves = some last) (allOver : last.isOver = true) :
    last.metrics.active = start.metrics.active := by
  have idle : last.users.countP (·.isActive) = 0 := by
    refine List.countP_eq_zero.2 fun u member active => ?_
    have ended := List.all_eq_true.1 allOver u member
    rw [User.isActive, decide_eq_true_eq] at active
    cases phase : u.phase <;> simp_all [Phase.isOver, Phase.activity]
  rw [gauge_of_run initial run, idle]
  simp

theorem Shared.active_eq {first left : Metrics} (shared : Shared first left) :
    left.active = first.active := by
  induction shared with
  | none => rfl
  | run earlier initial run allOver ih => rw [gauge_of_isOver initial run allOver, ih]

theorem IsInitial.log {events : List Log.Event} (initial : start.IsInitial words count) :
    (start.log events).IsInitial words count :=
  ⟨initial.now, initial.posts, initial.users⟩

/-- The gauge stands at each moment above its value at the start by the number of users under way.
When all have ended, it is back at that value, the one before the first of the runs. -/
theorem gauge_exact {first : Metrics} (shared : Shared first start.metrics)
    (initial : start.IsInitial words count) (run : start.after? setup moves = some last) :
    start.metrics.active = first.active ∧
    last.metrics.active = start.metrics.active + last.underWay moves ∧
    last.underWay moves ≤ count ∧
    (last.isOver = true → last.metrics.active = start.metrics.active) ∧
    ∀ seed timeline report left, perform setup seed timeline start = .finished report left →
      left.metrics.active = start.metrics.active := by
  have numbered := initial.numbered.after? run
  refine ⟨shared.active_eq, ?_, ?_, gauge_of_isOver initial run, ?_⟩
  · rw [underWay_eq initial run, gauge_of_run initial run]
  · rw [← numbered.length_users]
    exact List.countP_le_length
  · intro seed timeline report left performed
    obtain ⟨moves, last, reached, allOver, -, metrics⟩ := perform_finished performed
    rw [metrics, gauge_of_isOver (IsInitial.log initial) reached allOver]
    rfl

def pairAgain (m : Metrics) : State := .initial .start {} m (fun _ => .ofWords []) 2

theorem gauge_exact_pair :
    ∃ last t, pairStart.after? pairSetup pairMoves = some last ∧ last.isOver = true ∧
      (pairAgain last.metrics).after? pairSetup (pairMoves.take 7) = some t ∧
      last.metrics.active = pairStart.metrics.active ∧
      t.metrics.active = pairStart.metrics.active + 1 := by
  have runs : (pairStart.after? pairSetup pairMoves).any (fun last => last.isOver &&
      ((pairAgain last.metrics).after? pairSetup (pairMoves.take 7)).any
        (·.underWay (pairMoves.take 7) == 1)) = true := by
    decide +kernel
  obtain ⟨last, firstRun, ended⟩ := (Option.any_eq_true _ _).1 runs
  obtain ⟨allOver, runs⟩ := Bool.and_eq_true_iff.1 ended
  obtain ⟨t, secondRun, one⟩ := (Option.any_eq_true _ _).1 runs
  have left := Shared.run .none (State.initial_isInitial _ _ _ _ 2) firstRun allOver
  have shared : Shared pairStart.metrics (pairAgain last.metrics).metrics := left
  obtain ⟨balanced, above, -⟩ :=
    gauge_exact shared (State.initial_isInitial _ _ _ _ 2) secondRun
  refine ⟨last, t, firstRun, allOver, secondRun, balanced, ?_⟩
  rw [above, beq_iff_eq.1 one, balanced]
  rfl

end Volley.Run
