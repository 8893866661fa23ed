import Mathlib.Algebra.BigOperators.Group.List.Basic
import Mathlib.Algebra.Order.Ring.Nat
import Volley.Proofs.Metrics
import Volley.Proofs.Push.Recipe
import Volley.Proofs.Run.Accounting

namespace Volley

theorem flatMap_filter_perm {α : Type} (items : List α) (key : α → Nat) (bound : Nat) :
    ((List.range bound).flatMap fun i => items.filter (key · = i)).Perm
      (items.filter (key · < bound)) := by
  induction bound with
  | zero => simp
  | succ bound ih =>
      have below : (items.filter (key · < bound + 1)).filter (key · < bound) =
          items.filter (key · < bound) := by
        rw [List.filter_filter]
        refine List.filter_congr fun item _ => ?_
        grind
      have equal : (items.filter (key · < bound + 1)).filter (fun i => !decide (key i < bound)) =
          items.filter (key · = bound) := by
        rw [List.filter_filter]
        refine List.filter_congr fun item _ => ?_
        grind
      have split := List.filter_append_perm (fun item => decide (key item < bound))
        (items.filter (key · < bound + 1))
      rw [below, equal] at split
      rw [List.range_succ, List.flatMap_append, List.flatMap_singleton]
      exact (ih.append_right _).trans split

namespace Run

variable {setup : Setup} {s t start last : State} {move : Move} {moves : List Move}
  {ended : List User} {count : Nat} {words : Nat → WordSource}

theorem recordOutcome_shift (m : Metrics) (change : Int) (o : Outcome) :
    (m.shift change).recordOutcome o = (m.recordOutcome o).shift change :=
  rfl

theorem shift_shift (m : Metrics) (change more : Int) :
    (m.shift change).shift more = m.shift (change + more) := by
  simp [Metrics.shift, Int.add_assoc]

theorem metrics_of_run (initial : start.IsInitial words count) (zero : start.metrics = .empty)
    (run : start.after? setup moves = some last) :
    ∃ active, last.metrics =
      (Metrics.ofList ((start.returns setup moves).map (·.outcome))).shift active := by
  refine (State.after?_induction (fun _ => True) (fun s history =>
    ∃ active, s.metrics = (Metrics.ofList (history.map (·.outcome))).shift active) ?_ []
    initial.numbered (fun _ _ _ _ => trivial) ⟨0, by rw [zero, Metrics.shift_zero]; rfl⟩ run).2
  intro s t move history _ _ _ recorded step
  obtain ⟨active, recorded⟩ := recorded
  cases step with
  | @turn _ i u v sent outcome t mover returned turn =>
      rw [turn.metrics, returned, recorded]
      cases outcome with
      | none => exact ⟨active + (v.phase.activity - u.phase.activity), by simp [shift_shift]⟩
      | some o =>
          refine ⟨active + (v.phase.activity - u.phase.activity), ?_⟩
          simp [Metrics.ofList_concat, recordOutcome_shift, shift_shift]
  | signal signal => exact ⟨active, by simpa [State.returned?] using recorded⟩
  | advance later goesOn quiet => exact ⟨active, by simpa [State.returned?] using recorded⟩

def lostOutcomes (s : State) (returned : List Returned) : List Outcome :=
  (s.users.filter (·.phase.isCrashed)).flatMap fun u => outcomesOf u.id returned

theorem user_lt_of_returned (initial : start.IsInitial words count)
    (run : start.after? setup moves = some last) :
    ∀ r ∈ start.returns setup moves, r.user < count := by
  refine (State.after?_induction (fun _ => True) (fun _ history => ∀ r ∈ history, r.user < count)
    ?_ [] initial.numbered (fun _ _ _ _ => trivial) (by simp) run).2
  intro s t move history numbered _ _ bound step r member
  rcases List.mem_append.1 member with before | now
  · exact bound r before
  · cases step with
    | @turn _ i u v sent outcome t mover returned turn =>
        rw [returned] at now
        simp only [Option.mem_toList, Option.map_eq_some_iff] at now
        obtain ⟨_, -, rfl⟩ := now
        have place := numbered.id_lt (List.mem_of_getElem? turn.user)
        rwa [numbered.id_eq turn.user] at place
    | signal signal => simp [State.returned?] at now
    | advance later goesOn quiet => simp [State.returned?] at now

theorem outcomes_perm (initial : start.IsInitial words count)
    (run : start.after? setup moves = some last) :
    ((start.returns setup moves).map (·.outcome)).Perm
      (last.users.flatMap fun u => outcomesOf u.id (start.returns setup moves)) := by
  have numbered := initial.numbered.after? run
  have byUser : (last.users.flatMap fun u => outcomesOf u.id (start.returns setup moves)) =
      ((List.range count).flatMap fun user =>
        (start.returns setup moves).filter (·.user = user)).map (·.outcome) := by
    rw [← numbered.map_id, List.flatMap_map, List.map_flatMap]
    rfl
  have all : (start.returns setup moves).filter (·.user < count) = start.returns setup moves := by
    rw [List.filter_eq_self]
    simpa using user_lt_of_returned initial run
  have sorted := flatMap_filter_perm (start.returns setup moves) (·.user) count
  rw [all] at sorted
  rw [byUser]
  exact (sorted.map (·.outcome)).symm

theorem outcomes_split (initial : start.IsInitial words count)
    (run : start.after? setup moves = some last) (order : ended.Perm last.users) :
    ((start.returns setup moves).map (·.outcome)).Perm
      (((Report.ofEnded last ended).users.flatMap
        fun u => outcomesOf u.id (start.returns setup moves)) ++
          lostOutcomes last (start.returns setup moves)) := by
  have parted := List.filter_append_perm (fun u : User => !u.phase.isCrashed) last.users
  simp only [Bool.not_not] at parted
  have users := Report.users_ofEnded (initial.numbered.after? run) order
  have split := (outcomes_perm initial run).trans
    (parted.symm.flatMap_right fun u => outcomesOf u.id (start.returns setup moves))
  rw [List.flatMap_append] at split
  rw [users, List.flatMap_map]
  exact split

def Phase.unanswered : Phase → Nat
  | .calling .. => 1
  | .crashed _ => 1
  | _ => 0

theorem Setup.unanswered_resume {now : Nat} (fits : ¬ setup.Overruns now) :
    (setup.resume now).unanswered = 0 := by
  rcases setup.resume_cases now with ⟨resumed, -⟩ | ⟨ends, resumed, -⟩ | ⟨-, overruns⟩
  · rw [resumed]
    rfl
  · rw [resumed]
    rfl
  · exact absurd overruns fits

theorem User.Step.unanswered {u v : User} {sent : Option Push} {outcome : Option Outcome}
    (step : u.Step setup s sent outcome v) (sized : setup.delivery.recipe.Fits)
    (fits : outcome.isSome = true → ¬ setup.Overruns s.now) :
    v.iterations + v.phase.unanswered =
      u.iterations + u.phase.unanswered + sent.toList.length := by
  cases step with
  | start fresh => simp [fresh, Phase.unanswered]
  | stop ready told => simp [ready, Phase.unanswered]
  | finish ready untold finished => simp [ready, Phase.unanswered]
  | call ready untold unfinished composed => simp [ready, Phase.unanswered]
  | spoil ready untold unfinished spoiled => exact absurd spoiled sized.compose_ne_error
  | crash calling due settled => simp [calling, Phase.unanswered]
  | goOn calling due settled =>
      simp only [Setup.unanswered_resume (fits rfl)]
      simp [calling, Phase.unanswered]
  | wake thinking due => simp [thinking, Phase.unanswered]
  | interrupt thinking news => simp [thinking, Phase.unanswered]

theorem length_pushesOf_eq (initial : start.IsInitial words count)
    (run : start.after? setup moves = some last) (sized : setup.delivery.recipe.Fits)
    (fits : ∀ r ∈ start.returns setup moves, ¬ setup.Overruns r.time) :
    ∀ u ∈ last.users, (last.pushesOf u.id).length = u.iterations + u.phase.unanswered := by
  refine (State.after?_induction (fun _ => True) (fun s history =>
    (∀ r ∈ history, ¬ setup.Overruns r.time) →
      ∀ u ∈ s.users, (s.pushesOf u.id).length = u.iterations + u.phase.unanswered) ?_ []
    initial.numbered (fun _ _ _ _ => trivial)
    (fun _ => initial.forall_users fun _ => by
      simp [State.pushesOf, initial.posts, Phase.unanswered]) run).2 fits
  intro s t move history numbered _ _ lengths step fits w member
  have before := lengths fun r known => fits r (List.mem_append_left _ known)
  rcases step.user_cases numbered member with
    ⟨unchanged, -, posted⟩ | ⟨u, sent, outcome, turn, returned⟩
  · rw [posted]
    exact before w unchanged
  · have now : outcome.isSome = true → ¬ setup.Overruns s.now := by
      intro some
      obtain ⟨o, rfl⟩ := Option.isSome_iff_exists.1 some
      exact fits ⟨w.id, s.now, o⟩ (by simp [returned])
    have length := before u (List.mem_of_getElem? turn.user)
    have posted := turn.pushesOf numbered w.id
    rw [if_pos rfl] at posted
    rw [posted, List.length_append, turn.step.unanswered sized now, ← length, turn.step.id_eq]

theorem length_posts (initial : start.IsInitial words count)
    (run : start.after? setup moves = some last) :
    last.posts.length = (last.users.map fun u => (last.pushesOf u.id).length).sum := by
  have all : last.posts.filter (·.user < count) = last.posts := by
    rw [List.filter_eq_self]
    simpa using user_lt_of_post initial run
  have sorted := flatMap_filter_perm last.posts (·.user) count
  rw [all] at sorted
  rw [← sorted.length_eq, List.length_flatMap, ← (initial.numbered.after? run).map_id,
    List.map_map]
  simp [State.pushesOf, Function.comp_def]

theorem sum_map_crashed (users : List User) :
    (users.map fun u => if u.phase.isCrashed then 1 else 0).sum =
      users.countP (·.phase.isCrashed) := by
  induction users with
  | nil => rfl
  | cons u rest ih => cases broken : u.phase.isCrashed <;> simp [broken, ih, Nat.add_comm]

theorem length_posts_of_isOver (initial : start.IsInitial words count)
    (run : start.after? setup moves = some last) (allOver : last.isOver = true)
    (sized : setup.delivery.recipe.Fits)
    (fits : ∀ r ∈ start.returns setup moves, ¬ setup.Overruns r.time) :
    last.posts.length =
      (start.returns setup moves).length + last.users.countP (·.phase.isCrashed) := by
  have lengths : ∀ u ∈ last.users, (last.pushesOf u.id).length =
      (outcomesOf u.id (start.returns setup moves)).length +
        if u.phase.isCrashed then 1 else 0 := by
    intro u member
    rw [length_pushesOf_eq initial run sized fits u member,
      (ledger_of_run initial run u member).iterations]
    have ended := List.all_eq_true.1 allOver u member
    cases phase : u.phase <;> simp_all [Phase.isOver, Phase.isCrashed, Phase.unanswered]
  have outcomes := (outcomes_perm initial run).length_eq
  rw [List.length_map, List.length_flatMap] at outcomes
  rw [length_posts initial run, List.map_congr_left lengths, List.sum_map_add, outcomes,
    sum_map_crashed]

/-- The metrics of a run count what its report counts and, on top, the outcomes of users that
crashed. -/
theorem metrics_account (initial : start.IsInitial words count) (zero : start.metrics = .empty)
    (run : start.after? setup moves = some last) (allOver : last.isOver = true)
    (order : ended.Perm last.users) :
    let report := Report.ofEnded last ended
    let lost := Tally.ofList (lostOutcomes last (start.returns setup moves))
    last.metrics.Accounts report.tally lost ∧
      (report.crashed = 0 → lost = .empty) ∧
      (setup.delivery.recipe.Fits → (∀ r ∈ start.returns setup moves, ¬ setup.Overruns r.time) →
        last.posts.length =
          last.metrics.requests.get "passed" + last.metrics.requests.get "failed" +
            report.crashed) := by
  intro report lost
  have crashes : report.crashed = last.users.countP (·.phase.isCrashed) :=
    Report.crashed_ofEnded order
  obtain ⟨active, metrics⟩ := metrics_of_run initial zero run
  have accounts : last.metrics.Accounts report.tally lost := by
    obtain ⟨passed, failed, statuses, failures, samples, kinds⟩ :=
      Metrics.accounts_ofList (outcomes_split initial run order)
    rw [metrics, tally_ofEnded initial run order]
    exact ⟨passed, failed, statuses, failures, samples, kinds⟩
  refine ⟨accounts, ?_, ?_⟩
  · intro none
    have crashed : last.users.filter (·.phase.isCrashed) = [] := by
      rw [crashes, List.countP_eq_length_filter] at none
      exact List.length_eq_zero_iff.1 none
    simp only [lost, lostOutcomes, crashed]
    rfl
  · intro sized fits
    have returned : last.metrics.requests.get "passed" + last.metrics.requests.get "failed" =
        (start.returns setup moves).length := by
      rw [← accounts.kinds, metrics]
      exact (Metrics.statuses_add_failures _).trans (List.length_map _)
    rw [length_posts_of_isOver initial run allOver sized fits, returned, crashes]

def brittleSetup : Setup :=
  { pairSetup with
    policy := .iterations 2
    transport := fun call =>
      if call.user = 0 then ⟨5, .answer 200 "", []⟩
      else if call.index = 0 then ⟨7, .answer 500 "", []⟩
      else ⟨1, .panic "broken", []⟩ }

def brittleMoves : List Move :=
  [.start 0, .start 1, .decide 1, .decide 0, .advance 5, .settle 0, .decide 0, .advance 7,
    .settle 1, .decide 1, .advance 8, .settle 1, .advance 10, .settle 0, .decide 0]

theorem metrics_account_brittle :
    ∃ last, pairStart.after? brittleSetup brittleMoves = some last ∧
      last.metrics.Accounts (Report.ofState last).tally
        (.ofList (lostOutcomes last (pairStart.returns brittleSetup brittleMoves))) ∧
      (Report.ofState last).tally.failed = 0 ∧ last.metrics.requests.get "failed" = 1 ∧
      last.posts.length = 4 := by
  have ends : (pairStart.after? brittleSetup brittleMoves).any (fun s =>
      s.isOver && (Report.ofState s).tally.failed == 0 && s.metrics.requests.get "failed" == 1 &&
        s.metrics.requests.get "passed" == 2 && (Report.ofState s).crashed == 1) = true := by
    decide +kernel
  obtain ⟨last, run, ended⟩ := (Option.any_eq_true _ _).1 ends
  simp only [Bool.and_eq_true, beq_iff_eq] at ended
  obtain ⟨⟨⟨⟨allOver, kept⟩, failed⟩, passed⟩, crashed⟩ := ended
  obtain ⟨accounts, -, calls⟩ := metrics_account (State.initial_isInitial _ _ _ _ 2) rfl run allOver
    (.refl last.users)
  have calm : ∀ r ∈ pairStart.returns brittleSetup brittleMoves,
      ¬ brittleSetup.Overruns r.time := by
    rintro r - ⟨pause, thinks, -⟩
    cases thinks
  refine ⟨last, run, accounts, kept, failed, ?_⟩
  rw [calls Recipe.fits_default calm, passed, failed]
  exact congrArg (2 + 1 + ·) crashed

end Run

end Volley
