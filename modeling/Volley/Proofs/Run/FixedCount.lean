import Volley.Proofs.Run.Fate
import Volley.Proofs.Run.Metrics
import Volley.Proofs.Run.Progress
import Volley.Proofs.Run.Seed

namespace Volley.Run

variable {setup : Setup} {s t start last : State} {move : Move} {moves : List Move}
  {count limit : Nat} {words : Nat → WordSource}

/-! ## Time -/

/-- The time that a user may have taken for its iterations so far. -/
def User.allowance (setup : Setup) (u : User) : Nat :=
  u.iterations * (setup.delivery.limit + setup.pauseLength) +
    u.phase.inFlight * setup.delivery.limit

structure User.Paced (setup : Setup) (now : Nat) (u : User) : Prop where
  now_le : u.phase.isOver = false → now ≤ u.allowance setup
  ends_le : ∀ ends, u.phase.ends? = some ends → ends ≤ u.allowance setup

theorem Setup.ends_resume_le {setup : Setup} {now ends : Nat}
    (resumed : (setup.resume now).ends? = some ends) : ends ≤ now + setup.pauseLength := by
  rcases setup.resume_cases now with ⟨ready, -⟩ | ⟨later, thinking, -⟩ | ⟨crashed, -⟩
  · simp [ready, Phase.ends?] at resumed
  · obtain ⟨pause, thinkTime, rfl⟩ := Setup.ends_of_resume thinking
    rw [thinking] at resumed
    cases resumed
    exact setup.wakeTime_le now thinkTime
  · simp [crashed, Phase.ends?] at resumed

theorem User.Paced.of_isOver {u : User} {now : Nat} (ended : u.phase.isOver = true) :
    u.Paced setup now := by
  constructor
  · simp [ended]
  · cases phase : u.phase <;> simp_all [Phase.isOver, Phase.ends?]

theorem User.Paced.of_present {u : User} {now : Nat} (still : u.phase.ends? = none)
    (now_le : now ≤ u.allowance setup) : u.Paced setup now :=
  ⟨fun _ => now_le, by simp [still]⟩

theorem User.Paced.step {u v : User} {sent : Option Push} {outcome : Option Outcome}
    (paced : u.Paced setup s.now) (step : u.Step setup s sent outcome v) :
    v.Paced setup s.now := by
  have now_le : s.now ≤ u.allowance setup := paced.now_le step.not_over
  cases step with
  | start fresh =>
      exact .of_present rfl (by simpa [allowance, fresh, Phase.inFlight] using now_le)
  | stop ready told => exact .of_isOver rfl
  | finish ready untold finished => exact .of_isOver rfl
  | @call push words ready untold unfinished composed =>
      have length := length_le setup.delivery (setup.transport ⟨u.id, u.iterations, push⟩)
      have now_le : s.now ≤ u.iterations * (setup.delivery.limit + setup.pauseLength) := by
        simpa [allowance, ready, Phase.inFlight] using now_le
      constructor
      · intro _
        simp only [allowance, Phase.inFlight]
        omega
      · rintro _ ⟨⟩
        simp only [allowance, Phase.inFlight]
        omega
  | spoil ready untold unfinished spoiled => exact .of_isOver rfl
  | crash calling due settled => exact .of_isOver rfl
  | goOn calling due settled =>
      -- The pause is paid for by the iteration that is now counted.
      have allowed : s.now + setup.pauseLength ≤
          (u.iterations + 1) * (setup.delivery.limit + setup.pauseLength) := by
        simp only [allowance, calling, Phase.inFlight] at now_le
        rw [Nat.succ_mul]
        omega
      constructor
      · intro _
        simp only [allowance, Setup.inFlight_resume]
        omega
      · intro ends resumed
        have later := Setup.ends_resume_le resumed
        simp only [allowance, Setup.inFlight_resume]
        omega
  | wake thinking due =>
      exact .of_present rfl (by simpa [allowance, thinking, Phase.inFlight] using now_le)
  | interrupt thinking news =>
      exact .of_present rfl (by simpa [allowance, thinking, Phase.inFlight] using now_le)

theorem paced_of_run (initial : start.IsInitial words count)
    (run : start.after? setup moves = some last) :
    ∀ u ∈ last.users, u.Paced setup last.now := by
  refine State.after?_invariant (fun s => ∀ u ∈ s.users, u.Paced setup s.now) ?_ initial.numbered
    (initial.forall_users fun _ => ⟨by simp [initial.now], nofun⟩) run
  intro s t move _ paced step w member
  cases step with
  | turn mover returned turn =>
      rw [turn.now]
      rw [turn.users] at member
      rcases List.mem_or_eq_of_mem_set member with before | rfl
      · exact paced w before
      · exact (paced _ (List.mem_of_getElem? turn.user)).step turn.step
  | signal signal => exact paced w member
  | @advance time later goesOn quiet =>
      refine ⟨fun active => ?_, (paced w member).ends_le⟩
      obtain ⟨ends, waits, before⟩ := State.exists_ends quiet later member active
      exact Nat.le_trans before ((paced w member).ends_le ends waits)

theorem User.allowance_le {u : User} (within : u.iterations + u.phase.inFlight ≤ limit) :
    u.allowance setup ≤ limit * (setup.delivery.limit + setup.pauseLength) := by
  calc
    u.allowance setup ≤ u.iterations * (setup.delivery.limit + setup.pauseLength) +
        u.phase.inFlight * (setup.delivery.limit + setup.pauseLength) :=
      Nat.add_le_add_left (Nat.mul_le_mul_left _ (Nat.le_add_right _ _)) _
    _ = (u.iterations + u.phase.inFlight) * (setup.delivery.limit + setup.pauseLength) :=
      (Nat.add_mul _ _ _).symm
    _ ≤ limit * (setup.delivery.limit + setup.pauseLength) := Nat.mul_le_mul_right _ within

theorem now_le_of_run (initial : start.IsInitial words count)
    (policy : setup.policy = .iterations limit) (run : start.after? setup moves = some last) :
    last.now ≤ limit * (setup.delivery.limit + setup.pauseLength) := by
  have always : start.Throughout setup moves fun s => ∀ u ∈ s.users,
      u.Paced setup s.now ∧ u.iterations + u.phase.inFlight ≤ limit := by
    intro passed _ s reached u member
    exact ⟨paced_of_run initial reached u member, iterations_le initial policy reached u member⟩
  refine (State.after?_induction _ (fun s _ =>
    s.now ≤ limit * (setup.delivery.limit + setup.pauseLength)) ?_ [] initial.numbered always
    (by simp [initial.now]) run).2
  intro s t move _ _ limited _ before step
  cases step with
  | turn mover returned turn => rwa [turn.now]
  | signal signal => exact before
  | @advance time later goesOn quiet =>
      -- Somebody is left, and time stops where its call or its pause ends.
      obtain ⟨u, member, active⟩ : ∃ u ∈ s.users, u.phase.isOver = false := by
        simpa [State.isOver] using goesOn
      obtain ⟨paced, within⟩ := limited u member
      obtain ⟨ends, waits, reached⟩ := State.exists_ends quiet later member active
      exact Nat.le_trans reached
        (Nat.le_trans (paced.ends_le ends waits) (User.allowance_le within))

/-! ## Calls -/

theorem User.Step.calls_le {u v : User} {sent : Option Push} {outcome : Option Outcome}
    {calls : Nat} (step : u.Step setup s sent outcome v) (policy : setup.policy = .iterations limit)
    (before : calls = u.iterations + u.phase.inFlight) (within : calls ≤ limit) :
    calls + sent.toList.length ≤ limit ∧ (v.phase.isOver = false →
      calls + sent.toList.length = v.iterations + v.phase.inFlight) := by
  cases step with
  | call ready untold unfinished composed =>
      have room : u.iterations < limit := by
        simpa [Setup.isFinished, policy] using unfinished
      simp only [ready, Phase.inFlight] at before ⊢
      simp only [Option.toList_some, List.length_singleton]
      omega
  | goOn calling due settled =>
      simp only [calling, Phase.inFlight] at before
      simp only [Setup.inFlight_resume, Option.toList_none, List.length_nil]
      omega
  | start fresh => simp_all [Phase.inFlight]
  | stop ready told => simp_all [Phase.isOver]
  | finish ready untold finished => simp_all [Phase.isOver]
  | spoil ready untold unfinished spoiled => simp_all [Phase.isOver]
  | crash calling due settled => simp_all [Phase.isOver]
  | wake thinking due => simp_all [Phase.inFlight]
  | interrupt thinking news => simp_all [Phase.inFlight]

theorem length_pushesOf_le (initial : start.IsInitial words count)
    (policy : setup.policy = .iterations limit) (run : start.after? setup moves = some last) :
    ∀ u ∈ last.users, (last.pushesOf u.id).length ≤ limit := by
  have counted : ∀ u ∈ last.users, (last.pushesOf u.id).length ≤ limit ∧
      (u.phase.isOver = false →
        (last.pushesOf u.id).length = u.iterations + u.phase.inFlight) := by
    refine State.after?_invariant (fun s => ∀ u ∈ s.users, (s.pushesOf u.id).length ≤ limit ∧
      (u.phase.isOver = false → (s.pushesOf u.id).length = u.iterations + u.phase.inFlight)) ?_
      initial.numbered (initial.forall_users fun _ => by
        simp [State.pushesOf, initial.posts, Phase.inFlight]) run
    intro s t move numbered counted step w member
    rcases step.user_cases numbered member with
      ⟨unchanged, -, posted⟩ | ⟨u, sent, outcome, turn, -⟩
    · rw [posted]
      exact counted w unchanged
    · obtain ⟨within, calls⟩ := counted u (List.mem_of_getElem? turn.user)
      have posted := turn.pushesOf numbered w.id
      rw [if_pos rfl] at posted
      rw [posted, List.length_append, turn.step.id_eq]
      exact turn.step.calls_le policy (calls turn.step.not_over) within
  exact fun u member => (counted u member).1

theorem length_posts_le (initial : start.IsInitial words count)
    (policy : setup.policy = .iterations limit) (run : start.after? setup moves = some last) :
    last.posts.length ≤ count * limit := by
  rw [length_posts initial run]
  exact State.total_le (initial.numbered.after? run) (length_pushesOf_le initial policy run)

/-! ## The end -/

theorem able_of_supplied (supplied : ∀ u ∈ s.users, setup.delivery.recipe.Supplied u.words) :
    s.Able setup := by
  intro u member ready
  simp only [State.decide, ready]
  split
  · rfl
  · split
    · rfl
    · obtain ⟨made, left, composed⟩ :=
        (supplied u member).compose (s.clock.read (setup.daytime s.now)).1
      cases made <;> simp [State.call, composed]

theorem supplied_of_run (initial : start.IsInitial words count)
    (supplied : ∀ u ∈ start.users, setup.delivery.recipe.Supplied u.words)
    (run : start.after? setup moves = some last) :
    ∀ u ∈ last.users, setup.delivery.recipe.Supplied u.words := by
  refine State.after?_users (fun _ => True) (fun u => setup.delivery.recipe.Supplied u.words) ?_
    initial.numbered (fun _ _ _ _ => trivial) supplied run
  intro s u v sent outcome _ before step
  rcases step.composes with ⟨-, kept⟩ | ⟨push, -, composed⟩
  · rwa [kept]
  · exact before.after composed

def User.turnsLeft (limit : Nat) (u : User) : Nat :=
  match u.phase with
  | .fresh => 3 * limit + 2
  | .ready => 3 * (limit - u.iterations) + 1
  | .calling .. => 3 * (limit - u.iterations)
  | .thinking _ => 3 * (limit - u.iterations) + 2
  | .done => 0
  | .crashed _ => 0

theorem User.turnsLeft_le (limit : Nat) (u : User) : u.turnsLeft limit ≤ 3 * limit + 2 := by
  unfold turnsLeft
  split <;> omega

theorem lowers_turnsLeft (setup : Setup) (limit : Nat) :
    Lowers setup (fun s => ∀ u ∈ s.users, u.iterations + u.phase.inFlight ≤ limit)
      (User.turnsLeft limit) := by
  intro s u v sent outcome limited member step
  have within := limited u member
  cases step with
  | start fresh =>
      simp only [User.turnsLeft, fresh]
      omega
  | stop ready told => simp [User.turnsLeft, ready]
  | finish ready untold finished => simp [User.turnsLeft, ready]
  | call ready untold unfinished composed => simp [User.turnsLeft, ready]
  | spoil ready untold unfinished spoiled => simp [User.turnsLeft, ready]
  | crash calling due settled =>
      simp only [calling, Phase.inFlight] at within
      simp only [User.turnsLeft, calling]
      omega
  | goOn calling due settled =>
      simp only [calling, Phase.inFlight] at within
      rcases setup.resume_cases s.now with ⟨resumed, -⟩ | ⟨ends, resumed, -⟩ | ⟨resumed, -⟩ <;>
        simp only [User.turnsLeft, calling, resumed] <;> omega
  | wake thinking due => simp [User.turnsLeft, thinking]
  | interrupt thinking news => simp [User.turnsLeft, thinking]

def Setup.longest (setup : Setup) (limit : Nat) : Nat :=
  limit * (setup.delivery.limit + setup.pauseLength)

def Setup.mostMoves (setup : Setup) (count limit : Nat) : Nat :=
  count * (3 * limit + 2) + setup.longest limit

theorem bounded_of_run (initial : start.IsInitial words count)
    (policy : setup.policy = .iterations limit) (run : start.after? setup moves = some last) :
    (∀ u ∈ last.users, u.iterations + u.phase.inFlight ≤ limit) ∧
      last.now ≤ setup.longest limit :=
  ⟨iterations_le initial policy run, now_le_of_run initial policy run⟩

theorem total_turnsLeft_le (numbered : s.Numbered count) (limit : Nat) :
    s.total (User.turnsLeft limit) ≤ count * (3 * limit + 2) :=
  State.total_le numbered fun u _ => u.turnsLeft_le limit

theorem countP_moves_le_mostMoves (initial : start.IsInitial words count)
    (policy : setup.policy = .iterations limit) (run : start.after? setup moves = some last) :
    moves.countP (!·.isSignal) ≤ setup.mostMoves count limit := by
  have left := countP_moves_le (lowers_turnsLeft setup limit) initial.numbered
    (fun _ _ _ reached => bounded_of_run initial policy reached) run
  have turns := total_turnsLeft_le initial.numbered limit
  unfold Setup.mostMoves
  omega

theorem exists_run_of_supplied (initial : start.IsInitial words count)
    (policy : setup.policy = .iterations limit)
    (supplied : ∀ u ∈ start.users, setup.delivery.recipe.Supplied u.words) {timeline : Timeline}
    {rounds : Nat} (enough : setup.mostMoves count limit + timeline.length < rounds) :
    ∃ last, start.run setup rounds timeline = some last := by
  have turns := total_turnsLeft_le initial.numbered limit
  have always : ∀ moves s, start.after? setup moves = some s →
      (∀ u ∈ s.users, u.iterations + u.phase.inFlight ≤ limit) ∧ s.Able setup ∧
        s.now ≤ setup.longest limit := by
    intro moves s reached
    obtain ⟨limited, inTime⟩ := bounded_of_run initial policy reached
    exact ⟨limited, able_of_supplied (supplied_of_run initial supplied reached), inTime⟩
  apply exists_run (lowers_turnsLeft setup limit) initial.numbered always
  unfold Setup.mostMoves at enough
  omega

theorem exists_perform (initial : start.IsInitial words count)
    (policy : setup.policy = .iterations limit)
    (supplied : ∀ u ∈ start.users, setup.delivery.recipe.Supplied u.words) {timeline : Timeline}
    (enough : setup.mostMoves count limit + timeline.length < moveLimit) (seed : Option UInt64) :
    ∃ report last, perform setup seed timeline start = .finished report last := by
  -- The note that opens the run leaves its users alone.
  have logged : (start.log [Report.startNote start.users.length setup.policy seed]).IsInitial
      words count := ⟨initial.now, initial.posts, initial.users⟩
  obtain ⟨last, run⟩ : ∃ last, State.run setup moveLimit timeline
      (start.log [Report.startNote start.users.length setup.policy seed]) = some last :=
    exists_run_of_supplied logged policy supplied enough
  have noDeadline : setup.deadline? = none := by simp [Setup.deadline?, policy]
  refine ⟨Report.ofState last, last.log [(Report.ofState last).endNote start.users.length], ?_⟩
  simp [perform, noDeadline, run]

/-- A run with a limit of iterations comes to its end, after so many calls and in so much time,
whatever the transport and the signals do, if no draw goes on for ever. -/
theorem fixed_count_bounded (initial : start.IsInitial words count)
    (policy : setup.policy = .iterations limit)
    (supplied : ∀ u ∈ start.users, setup.delivery.recipe.Supplied u.words) :
    let longest := limit * (setup.delivery.limit + setup.pauseLength)
    let most := count * (3 * limit + 2) + longest
    (∀ moves last, start.after? setup moves = some last →
      last.posts.length ≤ count * limit ∧
      (∀ ended, (Report.ofEnded last ended).elapsed.nanos ≤ (Span.ofMillis longest).nanos) ∧
      (last.isOver = false →
        ∃ move, move.isSignal = false ∧ (last.move? setup move).isSome = true) ∧
      moves.countP (!·.isSignal) ≤ most) ∧
    (∀ timeline rounds, most + timeline.length < rounds →
      ∃ last, start.run setup rounds timeline = some last ∧ last.isOver = true) ∧
    ∀ timeline, most + timeline.length < moveLimit →
      ∀ seed, ∃ report last, perform setup seed timeline start = .finished report last := by
  intro longest most
  refine ⟨?_, ?_, fun timeline enough => exists_perform initial policy supplied enough⟩
  · intro moves last run
    have able := able_of_supplied (supplied_of_run initial supplied run)
    refine ⟨length_posts_le initial policy run, fun ended => ?_,
      exists_move_of_able (initial.numbered.after? run) able,
      countP_moves_le_mostMoves initial policy run⟩
    exact Span.ofMillis_le_iff.2 (now_le_of_run initial policy run)
  · intro timeline rounds enough
    obtain ⟨last, run⟩ := exists_run_of_supplied initial policy supplied enough
    obtain ⟨moves, -, allOver⟩ := State.run_after? run
    exact ⟨last, run, allOver⟩

def stallingSetup : Setup :=
  { pairSetup with
    policy := .iterations 3
    thinkTime := some (.ofMillis 50)
    transport := fun call =>
      if call.user = 0 then ⟨0, .silence, []⟩
      else if call.index = 0 then ⟨5, .answer 200 "", []⟩
      else ⟨5, .panic "broken", []⟩ }

theorem fixed_count_bounded_stalling :
    (∃ last, pairStart.after? stallingSetup [.start 0, .start 1, .decide 1, .decide 0] = some last ∧
      last.isOver = false ∧
        ∃ move, move.isSignal = false ∧ (last.move? stallingSetup move).isSome = true) ∧
    ∃ last, pairStart.run stallingSetup 500 [(20, .send false), (160, .close)] = some last ∧
      last.isOver = true := by
  have begins : (pairStart.after? stallingSetup [.start 0, .start 1, .decide 1, .decide 0]).any
      (!·.isOver) = true := by
    decide +kernel
  obtain ⟨last, run, goesOn⟩ := (Option.any_eq_true _ _).1 begins
  have goesOn : last.isOver = false := by simpa using goesOn
  obtain ⟨bounded, ends, -⟩ := fixed_count_bounded
    (State.initial_isInitial .start {} .empty (fun _ => .ofWords []) 2)
    (show stallingSetup.policy = .iterations 3 from rfl)
    (State.IsInitial.forall_users (State.initial_isInitial _ _ _ _ _) fun _ =>
      Recipe.fits_default.supplied_zeros)
  obtain ⟨-, -, possible, -⟩ := bounded _ last run
  exact ⟨⟨last, run, goesOn, possible goesOn⟩, ends _ 500 (by decide)⟩

end Volley.Run
