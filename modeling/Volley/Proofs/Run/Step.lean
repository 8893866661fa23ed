import Volley.Run.Trace

/-! What a move can do, once for all: `State.step_of_move?`. -/

namespace Volley.Run

def Setup.resume (setup : Setup) (now : Nat) : Phase :=
  match setup.thinkTime with
  | none => .ready
  | some pause =>
    if setup.holds (now + pause.ceilMillis) then .thinking (setup.wakeTime now pause)
    else .crashed overflow

def Setup.pauseLength (setup : Setup) : Nat := (setup.thinkTime.map Span.ceilMillis).getD 0

theorem Setup.pauseLength_eq {setup : Setup} {pause : Span}
    (thinkTime : setup.thinkTime = some pause) : setup.pauseLength = pause.ceilMillis := by
  rw [pauseLength, thinkTime, Option.map_some, Option.getD_some]

theorem Setup.wakeTime_le (setup : Setup) (now : Nat) {pause : Span}
    (thinkTime : setup.thinkTime = some pause) :
    setup.wakeTime now pause ≤ now + setup.pauseLength := by
  unfold wakeTime
  rw [pauseLength_eq thinkTime]
  split
  · exact Nat.min_le_left _ _
  · exact Nat.le_refl _

theorem Setup.holds_eq_false {setup : Setup} {time : Nat} :
    setup.holds time = false ↔ clockEnd ≤ setup.origin + time := by
  simp only [holds, decide_eq_false_iff_not, Nat.not_lt]

/-- The clock cannot hold the end of a pause that starts at `now`. -/
def Setup.Overruns (setup : Setup) (now : Nat) : Prop :=
  ∃ pause, setup.thinkTime = some pause ∧ clockEnd ≤ setup.origin + (now + pause.ceilMillis)

theorem Setup.resume_cases (setup : Setup) (now : Nat) :
    (setup.resume now = .ready ∧ ¬ setup.Overruns now) ∨
    (∃ ends, setup.resume now = .thinking ends ∧ ¬ setup.Overruns now) ∨
    (setup.resume now = .crashed overflow ∧ setup.Overruns now) := by
  unfold resume Overruns
  cases setup.thinkTime with
  | none => exact .inl ⟨rfl, by simp⟩
  | some pause =>
      simp only [Option.some.injEq, exists_eq_left', ← holds_eq_false]
      cases setup.holds (now + pause.ceilMillis) with
      | true => exact .inr (.inl ⟨_, rfl, by simp⟩)
      | false => exact .inr (.inr ⟨rfl, rfl⟩)

@[elab_as_elim]
theorem Setup.resume_induction {motive : Phase → Prop} (setup : Setup) (now : Nat)
    (ready : motive .ready) (thinking : ∀ ends, motive (.thinking ends))
    (crashed : motive (.crashed overflow)) : motive (setup.resume now) := by
  rcases setup.resume_cases now with ⟨resumed, -⟩ | ⟨ends, resumed, -⟩ | ⟨resumed, -⟩
  · exact resumed ▸ ready
  · exact resumed ▸ thinking ends
  · exact resumed ▸ crashed

theorem Setup.ends_of_resume {setup : Setup} {now ends : Nat}
    (resumed : setup.resume now = .thinking ends) :
    ∃ pause, setup.thinkTime = some pause ∧ ends = setup.wakeTime now pause := by
  unfold resume at resumed
  split at resumed
  · cases resumed
  · rename_i pause thinkTime
    split at resumed
    · cases resumed
      exact ⟨pause, thinkTime, rfl⟩
    · cases resumed

def Phase.activity : Phase → Int
  | .ready => 1
  | .calling .. => 1
  | .thinking _ => 1
  | .fresh => 0
  | .done => 0
  | .crashed _ => 0

def Move.user? : Move → Option Nat
  | .start i => some i
  | .decide i => some i
  | .settle i => some i
  | .wake i => some i
  | .interrupt i => some i
  | .signal _ => none
  | .advance _ => none

def Move.isSignal : Move → Bool
  | .signal _ => true
  | _ => false

/-- What a turn makes of the user whose turn it is: the push that it sends, the outcome that its
iteration returns, and the user afterwards. -/
inductive User.Step (setup : Setup) (s : State) (u : User) :
    Option Push → Option Outcome → User → Prop
  | start (fresh : u.phase = .fresh) : Step setup s u none none { u with phase := .ready }
  | stop (ready : u.phase = .ready) (told : s.channel.value = true) :
      Step setup s u none none { u with phase := .done }
  | finish (ready : u.phase = .ready) (untold : s.channel.value = false)
      (finished : setup.isFinished u.iterations s.now = true) :
      Step setup s u none none { u with phase := .done }
  | call {push : Push} {words : WordSource} (ready : u.phase = .ready)
      (untold : s.channel.value = false)
      (unfinished : setup.isFinished u.iterations s.now = false)
      (composed : setup.delivery.recipe.compose (s.clock.read (setup.daytime s.now)).1 u.words =
        some (.ok push, words)) :
      Step setup s u (some push) none
        { u with
          words
          phase := .calling push (setup.transport ⟨u.id, u.iterations, push⟩)
            (s.now + setup.delivery.length (setup.transport ⟨u.id, u.iterations, push⟩)) }
  | spoil {message : String} {words : WordSource} (ready : u.phase = .ready)
      (untold : s.channel.value = false)
      (unfinished : setup.isFinished u.iterations s.now = false)
      (spoiled : setup.delivery.recipe.compose (s.clock.read (setup.daytime s.now)).1 u.words =
        some (.error message, words)) :
      Step setup s u none none { u with phase := .crashed message }
  | crash {push : Push} {reply : Reply} {ends : Nat} {message : String}
      (calling : u.phase = .calling push reply ends) (due : ends ≤ s.now)
      (settled : setup.delivery.settle push reply = .crash message) :
      Step setup s u none none { u with phase := .crashed message }
  | goOn {push : Push} {reply : Reply} {ends : Nat} {outcome : Outcome}
      (calling : u.phase = .calling push reply ends) (due : ends ≤ s.now)
      (settled : setup.delivery.settle push reply = .outcome outcome) :
      Step setup s u none (some outcome)
        { u with
          iterations := u.iterations + 1
          tally := u.tally.record outcome
          phase := setup.resume s.now }
  | wake {ends : Nat} (thinking : u.phase = .thinking ends) (due : ends ≤ s.now) :
      Step setup s u none none { u with phase := .ready }
  | interrupt {ends : Nat} (thinking : u.phase = .thinking ends)
      (news : s.channel.hasNews u.seen = true) :
      Step setup s u none none { u with phase := .ready, seen := s.channel.version }

namespace State

/-- The turn of the user with the number `i`: it becomes `v`, and of the rest of the state only what
is named changes. -/
structure Turn (setup : Setup) (s : State) (i : Nat) (u : User) (sent : Option Push)
    (outcome : Option Outcome) (v : User) (t : State) : Prop where
  user : s.users[i]? = some u
  step : u.Step setup s sent outcome v
  users : t.users = s.users.set u.id v
  now : t.now = s.now
  channel : t.channel = s.channel
  clock : sent = none ∧ t.clock = s.clock ∨ t.clock = (s.clock.read (setup.daytime s.now)).2
  posts : t.posts = (sent.map (⟨u.id, ·⟩)).toList ++ s.posts
  metrics : t.metrics = (outcome.elim s.metrics s.metrics.recordOutcome).shift
    (v.phase.activity - u.phase.activity)

inductive Step (setup : Setup) (s : State) : Move → State → Prop
  | turn {move : Move} {i : Nat} {u v : User} {sent : Option Push} {outcome : Option Outcome}
      {t : State} (mover : move.user? = some i)
      (returned : s.returned? setup move = outcome.map (⟨i, s.now, ·⟩))
      (turn : Turn setup s i u sent outcome v t) : Step setup s move t
  | signal (signal : Signal) :
      Step setup s (.signal signal) { s with channel := s.channel.apply signal }
  | advance {time : Nat} (later : s.now < time) (goesOn : s.isOver = false)
      (quiet : s.isQuietBefore time = true) :
      Step setup s (.advance time) { s with now := time }

variable {setup : Setup} {s t : State} {i : Nat}

theorem step_of_start (h : s.move? setup (.start i) = some t) : Step setup s (.start i) t := by
  simp only [move?, Option.bind_eq_some_iff] at h
  obtain ⟨u, user, h⟩ := h
  unfold State.start at h
  split at h
  · rename_i fresh
    cases h
    exact .turn rfl rfl ⟨user, .start fresh, rfl, rfl, rfl, .inl ⟨rfl, rfl⟩, rfl, by
      simp [fresh, Phase.activity]⟩
  · cases h

theorem step_of_decide (h : s.move? setup (.decide i) = some t) : Step setup s (.decide i) t := by
  simp only [move?, Option.bind_eq_some_iff] at h
  obtain ⟨u, user, h⟩ := h
  unfold State.decide at h
  split at h
  · rename_i ready
    split at h
    · rename_i told
      cases h
      exact .turn rfl rfl ⟨user, .stop ready told, rfl, rfl, rfl, .inl ⟨rfl, rfl⟩, rfl, by
        simp [ready, Phase.activity, State.log, leave]⟩
    · rename_i untold
      have untold : s.channel.value = false := by simpa using untold
      split at h
      · rename_i finished
        cases h
        exact .turn rfl rfl ⟨user, .finish ready untold finished, rfl, rfl, rfl,
          .inl ⟨rfl, rfl⟩, rfl, by
          simp [ready, Phase.activity, leave]⟩
      · rename_i unfinished
        have unfinished : setup.isFinished u.iterations s.now = false := by simpa using unfinished
        simp only [call, Option.bind_eq_bind, Option.bind_eq_some_iff, Prod.exists] at h
        obtain ⟨message | push, words, composed, h⟩ := h
        · cases h
          exact .turn rfl rfl ⟨user, .spoil ready untold unfinished composed, rfl, rfl, rfl,
            .inr rfl, rfl, by simp [ready, Phase.activity, State.log, leave]⟩
        · cases h
          exact .turn rfl rfl ⟨user, .call ready untold unfinished composed, rfl, rfl, rfl,
            .inr rfl, rfl, by simp [ready, Phase.activity, State.log, put]⟩
  · cases h

theorem proceed_spec (setup : Setup) (s : State) {u : User} (active : u.phase.activity = 1) :
    (s.proceed setup u).users = s.users.set u.id { u with phase := setup.resume s.now } ∧
      (s.proceed setup u).now = s.now ∧ (s.proceed setup u).channel = s.channel ∧
      (s.proceed setup u).clock = s.clock ∧ (s.proceed setup u).posts = s.posts ∧
      (s.proceed setup u).metrics =
        s.metrics.shift ((setup.resume s.now).activity - u.phase.activity) := by
  rw [active]
  unfold proceed Setup.resume
  cases setup.thinkTime with
  | none => exact ⟨rfl, rfl, rfl, rfl, rfl, (Metrics.shift_zero _).symm⟩
  | some pause =>
      dsimp only
      cases setup.holds (s.now + pause.ceilMillis) with
      | true => exact ⟨rfl, rfl, rfl, rfl, rfl, (Metrics.shift_zero _).symm⟩
      | false => exact ⟨rfl, rfl, rfl, rfl, rfl, rfl⟩

theorem step_of_settle (h : s.move? setup (.settle i) = some t) : Step setup s (.settle i) t := by
  simp only [move?, Option.bind_eq_some_iff] at h
  obtain ⟨u, user, h⟩ := h
  unfold State.settle at h
  split at h
  · rename_i push reply ends calling
    split at h
    · cases h
    · rename_i due
      have due : ends ≤ s.now := by omega
      cases settled : setup.delivery.settle push reply with
      | crash message =>
          simp only [settled, Option.some.injEq] at h
          subst h
          exact .turn rfl (by simp [returned?, user, calling, settled]) ⟨user,
            .crash calling due settled, rfl, rfl, rfl, .inl ⟨rfl, rfl⟩, rfl, by
              simp [calling, Phase.activity, State.log, leave, put]⟩
      | outcome outcome =>
          simp only [settled, Option.some.injEq] at h
          subst h
          have active : u.phase.activity = 1 := by simp [calling, Phase.activity]
          obtain ⟨users, now, channel, clock, posts, metrics⟩ := proceed_spec setup
            { s.log (setup.delivery.notes reply) with metrics := s.metrics.recordOutcome outcome }
            (u := { u with iterations := u.iterations + 1, tally := u.tally.record outcome }) active
          have returned : s.returned? setup (.settle i) = (some outcome).map (⟨i, s.now, ·⟩) := by
            simp [returned?, user, calling, settled]
          exact .turn rfl returned
            ⟨user, .goOn calling due settled, users, now, channel, .inl ⟨rfl, clock⟩, posts,
              metrics⟩
  · cases h

theorem step_of_wake (h : s.move? setup (.wake i) = some t) : Step setup s (.wake i) t := by
  simp only [move?, Option.bind_eq_some_iff] at h
  obtain ⟨u, user, h⟩ := h
  unfold State.wake at h
  split at h
  · rename_i ends thinking
    split at h
    · cases h
    · cases h
      exact .turn rfl rfl ⟨user, .wake thinking (by omega), rfl, rfl, rfl,
        .inl ⟨rfl, rfl⟩, rfl, by
        simp [thinking, Phase.activity, put]⟩
  · cases h

theorem step_of_interrupt (h : s.move? setup (.interrupt i) = some t) :
    Step setup s (.interrupt i) t := by
  simp only [move?, Option.bind_eq_some_iff] at h
  obtain ⟨u, user, h⟩ := h
  unfold State.interrupt at h
  split at h
  · rename_i ends thinking
    split at h
    · rename_i news
      cases h
      exact .turn rfl rfl ⟨user, .interrupt thinking news, rfl, rfl, rfl,
        .inl ⟨rfl, rfl⟩, rfl, by
        simp [thinking, Phase.activity, put]⟩
    · cases h
  · cases h

theorem step_of_move? {move : Move} (h : s.move? setup move = some t) : Step setup s move t := by
  cases move with
  | start i => exact step_of_start h
  | decide i => exact step_of_decide h
  | settle i => exact step_of_settle h
  | wake i => exact step_of_wake h
  | interrupt i => exact step_of_interrupt h
  | signal signal =>
      cases h
      exact .signal signal
  | advance time =>
      simp only [move?] at h
      split at h
      · rename_i possible
        cases h
        exact .advance possible.1 possible.2.1 possible.2.2
      · cases h

end State

end Volley.Run
