import Mathlib.Data.List.Basic
import Volley.Proofs.Run.Ledger
import Volley.Proofs.Run.Report

namespace Volley

structure Report.Balanced (r : Report) (count : Nat) (outcomes : Nat → List Outcome) : Prop where
  ordered : r.users.Pairwise fun u v => u.id < v.id
  numbered : ∀ u ∈ r.users, u.id < count
  complete : r.users.length + r.crashed = count
  own : ∀ u ∈ r.users, u.tally = .ofList (outcomes u.id)
  iterations : ∀ u ∈ r.users, u.iterations = u.tally.total
  tally : r.tally = .ofList (r.users.flatMap fun u => outcomes u.id)
  total : r.tally.total = (r.users.map (·.iterations)).sum
  verdicts : r.tally.passed + r.tally.failed = r.tally.total
  kinds : (r.tally.statuses.map (·.2)).sum + (r.tally.failures.map (·.2)).sum = r.tally.total

namespace Run

variable {setup : Setup} {start last : State} {moves : List Move} {ended : List User} {count : Nat}
  {words : Nat → WordSource}

def Phase.inFlight : Phase → Nat
  | .calling .. => 1
  | _ => 0

theorem Setup.inFlight_resume (setup : Setup) (now : Nat) : (setup.resume now).inFlight = 0 :=
  setup.resume_induction now rfl (fun _ => rfl) rfl

theorem Setup.resume_ne_done (setup : Setup) (now : Nat) : setup.resume now ≠ .done :=
  setup.resume_induction now nofun nofun nofun

theorem iterations_le (initial : start.IsInitial words count) {limit : Nat}
    (policy : setup.policy = .iterations limit) (run : start.after? setup moves = some last) :
    ∀ u ∈ last.users, u.iterations + u.phase.inFlight ≤ limit := by
  refine State.throughout_users (fun u => u.iterations + u.phase.inFlight ≤ limit) initial
    (fun _ => Nat.zero_le _) ?_ moves (List.prefix_refl moves) last run
  intro s u v sent outcome bound step
  cases step with
  | call ready untold unfinished composed =>
      simp only [Setup.isFinished, policy, decide_eq_false_iff_not] at unfinished
      simp only [Phase.inFlight]
      omega
  | goOn calling due settled =>
      simp only [calling, Phase.inFlight] at bound
      simpa only [Setup.inFlight_resume] using bound
  | _ => exact Nat.le_trans (Nat.le_add_right _ _) bound

theorem le_iterations (initial : start.IsInitial words count) {limit : Nat}
    (policy : setup.policy = .iterations limit)
    (untold : start.Throughout setup moves fun s => s.channel.value = false)
    (run : start.after? setup moves = some last) :
    ∀ u ∈ last.users, u.phase = .done → limit ≤ u.iterations := by
  refine State.after?_users _ (fun u => u.phase = .done → limit ≤ u.iterations) ?_ initial.numbered
    untold (initial.forall_users fun _ => Phase.noConfusion) run
  intro s u v sent outcome untold bound step ended
  cases step with
  | stop ready told => simp [untold] at told
  | finish ready untold finished => simpa [Setup.isFinished, policy] using finished
  | goOn calling due settled => exact absurd ended (setup.resume_ne_done s.now)
  | _ => cases ended

theorem State.done_of_isOver (allOver : last.isOver = true) {u : User} (member : u ∈ last.users)
    (survived : u.phase.isCrashed = false) : u.phase = .done := by
  have ended := List.all_eq_true.1 allOver u member
  cases phase : u.phase <;> simp_all [Phase.isOver, Phase.isCrashed]

theorem tally_ofEnded (initial : start.IsInitial words count)
    (run : start.after? setup moves = some last) (order : ended.Perm last.users) :
    (Report.ofEnded last ended).tally = .ofList ((Report.ofEnded last ended).users.flatMap
      fun u => outcomesOf u.id (start.returns setup moves)) := by
  have numbered := initial.numbered.after? run
  have ledgers := ledger_of_run initial run
  have recorded : (Report.ofEnded last ended).tally = (Report.ofEnded last ended).users.foldl
      (fun sum u => sum.merge u.tally) (.ofList []) := rfl
  rw [recorded, ← List.nil_append (List.flatMap _ _), ← Tally.foldl_merge_ofList]
  refine List.foldl_ext _ _ _ fun sum u listed => ?_
  rw [Report.users_ofEnded numbered order] at listed
  obtain ⟨v, survived, rfl⟩ := List.mem_map.1 listed
  exact congrArg sum.merge (ledgers v (Report.mem_survivors.1 survived).1).tally

theorem balanced (initial : start.IsInitial words count)
    (run : start.after? setup moves = some last) (order : ended.Perm last.users) :
    (Report.ofEnded last ended).Balanced count
      fun user => outcomesOf user (start.returns setup moves) := by
  have numbered := initial.numbered.after? run
  have ledgers := ledger_of_run initial run
  have users := Report.users_ofEnded numbered order
  have tally := tally_ofEnded initial run order
  have survivor : ∀ {r}, r ∈ (Report.ofEnded last ended).users →
      ∃ u ∈ last.users, r = UserReport.ofUser u := by
    intro r listed
    rw [users] at listed
    obtain ⟨u, survived, rfl⟩ := List.mem_map.1 listed
    exact ⟨u, (Report.mem_survivors.1 survived).1, rfl⟩
  have iterations : ∀ r ∈ (Report.ofEnded last ended).users,
      r.iterations = (outcomesOf r.id (start.returns setup moves)).length := by
    intro r listed
    obtain ⟨u, member, rfl⟩ := survivor listed
    exact (ledgers u member).iterations
  constructor
  case ordered =>
    rw [users]
    exact List.pairwise_map.2 (Report.survivors_sorted numbered)
  case numbered =>
    intro r listed
    obtain ⟨u, member, rfl⟩ := survivor listed
    exact numbered.id_lt member
  case complete =>
    rw [users, List.length_map, Report.crashed_ofEnded order, Report.length_survivors,
      numbered.length_users]
  case own =>
    intro r listed
    obtain ⟨u, member, rfl⟩ := survivor listed
    exact (ledgers u member).tally
  case iterations =>
    intro r listed
    obtain ⟨u, member, rfl⟩ := survivor listed
    rw [iterations _ listed]
    exact ((congrArg Tally.total (ledgers u member).tally).trans (Tally.total_ofList _)).symm
  case tally => exact tally
  case total =>
    rw [tally, Tally.total_ofList, List.length_flatMap]
    exact congrArg List.sum (List.map_congr_left fun r listed => (iterations r listed).symm)
  case verdicts => rw [tally, Tally.passed_add_failed, Tally.total_ofList]
  case kinds => rw [tally, Tally.statuses_add_failures, Tally.total_ofList]

/-- The report accounts for the outcomes that the iterations of the listed users returned. Nobody
goes beyond a limit of iterations, nor ends before it unless told to. -/
theorem run_accounting (initial : start.IsInitial words count)
    (run : start.after? setup moves = some last) (allOver : last.isOver = true)
    (order : ended.Perm last.users) :
    let report := Report.ofEnded last ended
    let outcomes user := outcomesOf user (start.returns setup moves)
    report.Balanced count outcomes ∧
      (∀ u ∈ report.users,
        (outcomes u.id).map .outcome = setup.settled u.id (last.pushesOf u.id)) ∧
      ∀ limit, setup.policy = .iterations limit →
        (∀ u ∈ last.users, u.iterations ≤ limit) ∧
          ((start.Throughout setup moves fun s => s.channel.value = false) →
            ∀ u ∈ report.users, u.iterations = limit) := by
  intro report outcomes
  have numbered := initial.numbered.after? run
  have survivor : ∀ r ∈ report.users, ∃ u ∈ last.users, u.phase = .done ∧ r = .ofUser u := by
    intro r listed
    rw [Report.users_ofEnded numbered order] at listed
    obtain ⟨u, survived, rfl⟩ := List.mem_map.1 listed
    obtain ⟨member, survived⟩ := Report.mem_survivors.1 survived
    exact ⟨u, member, State.done_of_isOver allOver member survived, rfl⟩
  refine ⟨balanced initial run order, ?_, ?_⟩
  · intro r listed
    obtain ⟨u, member, done, rfl⟩ := survivor r listed
    obtain ⟨returned, settled, sent⟩ := (ledger_of_run initial run u member).calls
    rw [done] at sent
    exact settled.symm.trans (congrArg (setup.settled u.id) (Eq.symm sent))
  · intro limit policy
    have below := iterations_le initial policy run
    refine ⟨fun u member => Nat.le_trans (Nat.le_add_right _ _) (below u member), ?_⟩
    intro untold r listed
    obtain ⟨u, member, done, rfl⟩ := survivor r listed
    have above := le_iterations initial policy untold run u member done
    exact Nat.le_antisymm (Nat.le_trans (Nat.le_add_right _ _) (below u member)) above

def pairSetup : Setup where
  delivery := {
    url := "http://localhost/push"
    headers := []
    expectedStatus := 200
    timeout := .ofMillis 100
    recipe := .default
    protocol := none }
  policy := .iterations 1
  thinkTime := none
  transport call := if call.user = 0 then ⟨5, .answer 200 "", []⟩ else ⟨7, .panic "broken", []⟩
  daytime _ := 0
  origin := 0

def pairStart : State := .initial .start {} .empty (fun _ => .ofWords []) 2

def pairMoves : List Move :=
  [.start 1, .start 0, .decide 0, .decide 1, .advance 5, .settle 0, .decide 0, .advance 7,
    .settle 1]

theorem run_accounting_pair :
    ∃ last, pairStart.after? pairSetup pairMoves = some last ∧ last.isOver = true ∧
      (Report.ofEnded last last.users.reverse).Balanced 2
        (fun user => outcomesOf user (pairStart.returns pairSetup pairMoves)) ∧
      ∀ u ∈ (Report.ofEnded last last.users.reverse).users, u.iterations = 1 := by
  have ends : (pairStart.after? pairSetup pairMoves).any (·.isOver) = true := by decide +kernel
  obtain ⟨last, run, allOver⟩ := (Option.any_eq_true _ _).1 ends
  obtain ⟨balanced, -, limited⟩ := run_accounting (State.initial_isInitial _ _ _ _ 2) run allOver
    last.users.reverse_perm
  exact ⟨last, run, allOver, balanced, (limited 1 rfl).2 (State.throughout_value (by decide) rfl)⟩

end Run

end Volley
