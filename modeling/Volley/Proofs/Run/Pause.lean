import Volley.Proofs.Push.Recipe
import Volley.Proofs.Run.Pace

/-! A setting of the channel cuts a pause short, whatever its value is. The user then looks at the
channel at once, and stops only if it says so. -/

namespace Volley.Run

variable {setup : Setup} {s t start last : State} {move : Move} {earlier moves : List Move}
  {i count : Nat} {u : User} {words : Nat → WordSource}

def State.looked? (setup : Setup) (s : State) (user : Nat) : List Move → Option State
  | [] => none
  | move :: rest =>
    if move = .decide user then some s
    else (s.move? setup move).bind fun t => t.looked? setup user rest

/-- After some moves of a run a user pauses, and a move ends its pause before the pause is over and
before the deadline. -/
structure CutShort (setup : Setup) (start : State) (earlier : List Move) (s : State) (move : Move)
    (t : State) (u : User) : Prop where
  reached : start.after? setup earlier = some s
  made : s.move? setup move = some t
  member : u ∈ s.users
  mover : move.user? = some u.id
  early : ∃ pause span, (turnsOf u.id (start.turns setup earlier)).getLast? = some pause ∧
    pause.phase.isThinking = true ∧ setup.thinkTime = some span ∧
      s.now < setup.wakeTime pause.time span

theorem State.Step.turn_or_frame (numbered : s.Numbered count) (step : s.Step setup move t)
    (user : s.users[i]? = some u) :
    (move.user? = some i ∧ ∃ sent outcome v, s.Turn setup i u sent outcome v t) ∨
    (move.user? ≠ some i ∧ t.users[i]? = some u ∧ t.pushesOf i = s.pushesOf i ∧
      (t.now = s.now ∨ s.now < t.now ∧ s.isQuietBefore t.now = true)) := by
  cases step with
  | @turn _ j w v sent outcome t mover returned turn =>
      by_cases same : i = j
      · subst same
        cases user.symm.trans turn.user
        exact .inl ⟨mover, sent, outcome, v, turn⟩
      · have kept := turn.getElem?_users numbered i
        have posted := turn.pushesOf numbered i
        rw [if_neg same] at kept posted
        rw [List.append_nil] at posted
        refine .inr ⟨?_, kept.trans user, posted, .inl turn.now⟩
        rw [mover]
        exact fun own => same (Option.some.inj own).symm
  | signal signal => exact .inr ⟨nofun, user, rfl, .inl rfl⟩
  | advance later goesOn quiet => exact .inr ⟨nofun, user, rfl, .inr ⟨later, quiet⟩⟩

theorem State.pushesOf_prefix (numbered : s.Numbered count)
    (run : s.after? setup moves = some last) (user : Nat) :
    s.pushesOf user <+: last.pushesOf user := by
  refine State.after?_invariant (fun t => s.pushesOf user <+: t.pushesOf user) ?_ numbered
    (List.prefix_refl _) run
  intro _ t _ numbered sent step
  cases step with
  | turn mover returned turn =>
      rw [turn.pushesOf numbered]
      exact sent.trans (List.prefix_append _ _)
  | signal signal => exact sent
  | advance later goesOn quiet => exact sent

theorem State.frame_of_over (numbered : s.Numbered count) (user : s.users[i]? = some u)
    (ended : u.phase.isOver = true) (run : s.after? setup moves = some last) :
    last.users[i]? = some u ∧ last.pushesOf i = s.pushesOf i := by
  refine State.after?_invariant (fun t => t.users[i]? = some u ∧ t.pushesOf i = s.pushesOf i) ?_
    numbered ⟨user, rfl⟩ run
  rintro _ t _ numbered ⟨user, unsent⟩ step
  rcases step.turn_or_frame numbered user with
    ⟨-, sent, outcome, v, turn⟩ | ⟨-, same, posted, -⟩
  · exact absurd turn.step.not_over (by simp [ended])
  · exact ⟨same, posted.trans unsent⟩

theorem State.eq_decide_of_ready (made : s.move? setup move = some t)
    (user : s.users[i]? = some u) (ready : u.phase = .ready) (mover : move.user? = some i) :
    move = .decide i := by
  cases move with
  | decide j => exact congrArg Move.decide (Option.some.inj mover)
  | start j =>
      cases mover
      simp [State.move?, user, State.start, ready] at made
  | settle j =>
      cases mover
      simp [State.move?, user, State.settle, ready] at made
  | wake j =>
      cases mover
      simp [State.move?, user, State.wake, ready] at made
  | interrupt j =>
      cases mover
      simp [State.move?, user, State.interrupt, ready] at made
  | signal signal => cases mover
  | advance time => cases mover

/-- A user sends something more after `s`, or it has broken down over a push without room for its
identifiers. -/
def State.GoesOn (setup : Setup) (s last : State) (i : Nat) : Prop :=
  last.pushesOf i ≠ s.pushesOf i ∨
    ¬ setup.delivery.recipe.Fits ∧ ∃ v, last.users[i]? = some v ∧ v.phase.isCrashed = true

theorem State.not_goesOn (user : last.users[i]? = some u) (intact : u.phase.isCrashed = false)
    (unsent : last.pushesOf i = s.pushesOf i) : ¬ State.GoesOn setup s last i := by
  rintro (more | ⟨-, v, same, broken⟩)
  · exact more unsent
  · cases user.symm.trans same
    simp [intact] at broken

theorem State.Turn.goesOn_iff {v : User} {sent : Option Push} {outcome : Option Outcome}
    (turn : s.Turn setup i u sent outcome v t) (ready : u.phase = .ready)
    (numbered : s.Numbered count) (numberedAfter : t.Numbered count)
    (run : t.after? setup moves = some last) :
    State.GoesOn setup s last i ↔
      s.channel.value = false ∧ setup.isFinished u.iterations s.now = false := by
  have after : t.users[i]? = some v := by rw [turn.getElem?_users numbered, if_pos rfl]
  have posted := turn.pushesOf numbered i
  rw [if_pos rfl] at posted
  cases turn.step with
  | stop _ told =>
      obtain ⟨same, unsent⟩ := State.frame_of_over numberedAfter after rfl run
      refine iff_of_false (State.not_goesOn same rfl ?_) (by simp [told])
      rw [unsent, posted, Option.toList_none, List.append_nil]
  | finish _ untold finished =>
      obtain ⟨same, unsent⟩ := State.frame_of_over numberedAfter after rfl run
      refine iff_of_false (State.not_goesOn same rfl ?_) (by simp [finished])
      rw [unsent, posted, Option.toList_none, List.append_nil]
  | call _ untold unfinished composed =>
      have longer := (State.pushesOf_prefix numberedAfter run i).length_le
      simp only [posted, Option.toList_some, List.length_append, List.length_singleton] at longer
      refine iff_of_true (.inl fun same => ?_) ⟨untold, unfinished⟩
      rw [same] at longer
      omega
  | spoil _ untold unfinished spoiled =>
      obtain ⟨same, -⟩ := State.frame_of_over numberedAfter after rfl run
      exact iff_of_true (.inr ⟨fun fits => fits.compose_ne_error spoiled, _, same, rfl⟩)
        ⟨untold, unfinished⟩
  | start fresh => cases ready.symm.trans fresh
  | crash calling due settled => cases ready.symm.trans calling
  | goOn calling due settled => cases ready.symm.trans calling
  | wake thinking due => cases ready.symm.trans thinking
  | interrupt thinking news => cases ready.symm.trans thinking

/-- A ready user goes on exactly if it decides at all and then finds no reason to stop. -/
theorem goesOn_iff_of_ready (numbered : s.Numbered count) (user : s.users[i]? = some u)
    (ready : u.phase = .ready) (run : s.after? setup moves = some last) :
    State.GoesOn setup s last i ↔ ∃ looked, s.looked? setup i moves = some looked ∧
      looked.now = s.now ∧ looked.channel.value = false ∧
        setup.isFinished u.iterations s.now = false := by
  induction moves generalizing s with
  | nil =>
      cases run
      refine iff_of_false (State.not_goesOn user (by rw [ready]; rfl) rfl) ?_
      simp [State.looked?]
  | cons move rest ih =>
      simp only [State.after?, Option.bind_eq_some_iff] at run
      obtain ⟨t, made, run⟩ := run
      have step := State.step_of_move? made
      have numberedAfter := numbered.step step
      rcases step.turn_or_frame numbered user with
        ⟨mover, sent, outcome, v, turn⟩ | ⟨other, same, posted, time⟩
      · have decides := State.eq_decide_of_ready made user ready mover
        simp only [State.looked?, decides, if_true, Option.some.injEq, exists_eq_left', true_and]
        exact turn.goesOn_iff ready numbered numberedAfter run
      · have decides : move ≠ .decide i := by
          rintro rfl
          exact other rfl
        have now : t.now = s.now := by
          rcases time with now | ⟨later, quiet⟩
          · exact now
          · have member := List.mem_of_getElem? user
            have blocked := State.le_due quiet member (by rw [User.due?, ready])
            omega
        simp only [State.looked?, if_neg decides, made, Option.bind_some]
        rw [State.GoesOn, ← posted, ← now]
        exact ih numberedAfter same run

theorem CutShort.interrupted (cut : CutShort setup start earlier s move t u)
    (initial : start.IsInitial words count) :
    s.channel.hasNews u.seen = true ∧ t.now = s.now ∧ t.channel = s.channel ∧
      t.pushesOf u.id = s.pushesOf u.id ∧
      t.users[u.id]? = some { u with phase := .ready, seen := s.channel.version } := by
  obtain ⟨reached, made, member, mover, pause, span, lastTurn, isPause, thinkTime, early⟩ := cut
  have numbered := initial.numbered.after? reached
  have user := numbered.mem_iff.1 member
  have phase := phase_of_last_turn initial reached u member pause lastTurn
  rcases (State.step_of_move? made).turn_or_frame numbered user with
    ⟨-, sent, outcome, v, turn⟩ | ⟨other, -⟩
  · have posted := turn.pushesOf numbered u.id
    have after := turn.getElem?_users numbered u.id
    rw [if_pos rfl] at posted after
    cases turn.step with
    | interrupt thinking news =>
        exact ⟨news, turn.now, turn.channel, posted.trans (List.append_nil _), after⟩
    | wake thinking due =>
        -- The pause would be over.
        have among := (List.mem_filter.1 (List.mem_of_getLast? lastTurn)).1
        obtain ⟨other, given, rfl⟩ :=
          ends_of_pause initial reached among (phase.symm.trans thinking)
        cases thinkTime.symm.trans given
        omega
    | start fresh => simp [← phase, fresh, Phase.isThinking] at isPause
    | stop ready told => simp [← phase, ready, Phase.isThinking] at isPause
    | finish ready untold finished => simp [← phase, ready, Phase.isThinking] at isPause
    | call ready untold unfinished composed => simp [← phase, ready, Phase.isThinking] at isPause
    | spoil ready untold unfinished spoiled => simp [← phase, ready, Phase.isThinking] at isPause
    | crash calling due settled => simp [← phase, calling, Phase.isThinking] at isPause
    | goOn calling due settled => simp [← phase, calling, Phase.isThinking] at isPause
  · exact absurd mover other

theorem State.throughout_told (numbered : s.Numbered count)
    (resolute : s.Throughout setup moves fun s => s.channel.IsResolute)
    (told : s.channel.value = true) :
    s.Throughout setup moves fun s => s.channel.value = true := by
  intro passed before t reached
  have resolute : s.Throughout setup passed fun s => s.channel.IsResolute :=
    fun front inner => resolute front (inner.trans before)
  exact (State.after?_induction _ (fun s _ => s.channel.value = true)
    (fun _ _ firm told step => step.stays_told firm told) [] numbered resolute told reached).2

theorem CutShort.pushesOf_eq {later : List Move} (cut : CutShort setup start earlier s move t u)
    (initial : start.IsInitial words count)
    (resolute : start.Throughout setup (earlier ++ move :: later) fun s => s.channel.IsResolute)
    (run : t.after? setup later = some last) : last.pushesOf u.id = s.pushesOf u.id := by
  obtain ⟨news, -, channel, posted, -⟩ := cut.interrupted initial
  have before : start.after? setup (earlier ++ [move]) = some t :=
    State.after?_concat.2 ⟨s, cut.reached, cut.made⟩
  have told : t.channel.value = true := by
    have firm := resolute earlier (List.prefix_append _ _) s cut.reached
    have seen_le := (timely_of_run initial cut.reached u cut.member).seen_le
    rw [channel]
    exact firm.told_of_news seen_le news
  have resolute : t.Throughout setup later fun s => s.channel.IsResolute := by
    intro front inner v reached
    refine resolute (earlier ++ [move] ++ front) ?_ v ?_
    · simpa using inner
    · rw [State.after?_append, before]
      exact reached
  have stays := State.throughout_told (initial.numbered.after? before) resolute told
  have posts := (stopping_of_run initial before stays run).posts
  rw [← posted, State.pushesOf, State.pushesOf, posts]

/-- A user whose pause is cut short goes on exactly if it looks at the channel while that does not
say that the run is to stop, and its iterations are not finished. -/
theorem cut_pause_course (initial : start.IsInitial words count)
    (run : start.after? setup moves = some last) :
    (∀ earlier s move t u later, CutShort setup start earlier s move t u →
      moves = earlier ++ move :: later →
      (State.GoesOn setup s last u.id ↔ ∃ looked, t.looked? setup u.id later = some looked ∧
        looked.now = s.now ∧ looked.channel.value = false ∧
          setup.isFinished u.iterations s.now = false)) ∧
    (start.Throughout setup moves (fun s => s.channel.IsResolute) →
      (∀ earlier s move t u later, CutShort setup start earlier s move t u →
        moves = earlier ++ move :: later → last.pushesOf u.id = s.pushesOf u.id) ∧
      ∀ u ∈ last.users,
        let lengths := setup.lengths u.id (last.pushesOf u.id)
        timesOf Phase.isCalling (turnsOf u.id (start.turns setup moves)) =
          lengths.mapIdx fun index _ => setup.taken (lengths.take index)) := by
  have rest : ∀ earlier s move t u later, CutShort setup start earlier s move t u →
      moves = earlier ++ move :: later → t.after? setup later = some last := by
    rintro earlier s move t u later cut rfl
    simpa [State.after?_append, cut.reached, State.after?, cut.made] using run
  refine ⟨?_, fun resolute => ⟨?_, fun u member => ?_⟩⟩
  · intro earlier s move t u later cut split
    obtain ⟨-, now, -, posted, ready⟩ := cut.interrupted initial
    have numbered := (initial.numbered.after? cut.reached).step (State.step_of_move? cut.made)
    have goesOn := goesOn_iff_of_ready numbered ready rfl (rest _ _ _ _ _ _ cut split)
    rwa [State.GoesOn, posted, now] at goesOn
  · intro earlier s move t u later cut split
    exact cut.pushesOf_eq initial (split ▸ resolute) (rest _ _ _ _ _ _ cut split)
  · exact (course_of_run initial resolute run u member).begins_eq

def untilSet (value : Bool) : List Move :=
  [.start 0, .decide 0, .advance 5, .settle 0, .advance 10, .signal (.send value)]

theorem exists_cutShort (value : Bool) :
    ∃ s t u, CutShort steadySetup loneStart (untilSet value) s (.interrupt 0) t u ∧ u.id = 0 ∧
      (s.pushesOf u.id).length = 1 := by
  have reaches : (loneStart.after? steadySetup (untilSet value)).any (fun s =>
      (s.move? steadySetup (.interrupt 0)).isSome && s.now = 10 && (s.pushesOf 0).length = 1 &&
        (turnsOf 0 (loneStart.turns steadySetup (untilSet value))).getLast? =
          some ⟨0, 5, .thinking 55⟩) = true := by
    cases value <;> decide +kernel
  obtain ⟨s, reached, state⟩ := (Option.any_eq_true _ _).1 reaches
  simp only [Bool.and_eq_true, decide_eq_true_eq] at state
  obtain ⟨⟨⟨made, now⟩, sent⟩, lastTurn⟩ := state
  obtain ⟨t, made⟩ := Option.isSome_iff_exists.1 made
  have numbered := (State.initial_isInitial _ _ _ _ 1).numbered.after? reached
  have bound : 0 < s.users.length := by rw [numbered.length_users]; exact Nat.one_pos
  have id : (s.users[0]).id = 0 := numbered.id_eq (List.getElem?_eq_getElem bound)
  refine ⟨s, t, s.users[0], ⟨reached, made, List.getElem_mem bound, by rw [id]; rfl, ?_⟩, id, ?_⟩
  · refine ⟨⟨0, 5, .thinking 55⟩, .ofMillis 50, by rw [id]; exact lastTurn, rfl, rfl, ?_⟩
    rw [now]
    decide
  · rw [id]
    exact sent

theorem cut_pause_course_told :
    ∃ s t u last, CutShort steadySetup loneStart (untilSet true) s (.interrupt 0) t u ∧
      t.after? steadySetup [.decide 0] = some last ∧ last.isOver = true ∧
        last.pushesOf u.id = s.pushesOf u.id := by
  obtain ⟨s, t, u, cut, -⟩ := exists_cutShort true
  have ends : (loneStart.after? steadySetup (untilSet true ++ .interrupt 0 :: [.decide 0])).any
      (·.isOver) = true := by
    decide +kernel
  obtain ⟨last, run, allOver⟩ := (Option.any_eq_true _ _).1 ends
  obtain ⟨-, resolute⟩ := cut_pause_course (State.initial_isInitial _ _ _ _ 1) run
  obtain ⟨stopped, -⟩ := resolute (State.throughout_resolute (by decide) fun _ => rfl)
  refine ⟨s, t, u, last, cut, ?_, allOver, stopped _ s _ t u _ cut rfl⟩
  simpa [State.after?_append, cut.reached, State.after?, cut.made] using run

/-- A `false` cuts a pause short as well, and the user calls again before the pause is over. -/
theorem resent_false_cuts_pause :
    ∃ s t u last, CutShort steadySetup loneStart (untilSet false) s (.interrupt 0) t u ∧
      t.after? steadySetup [.decide 0, .advance 15, .settle 0, .advance 65, .wake 0, .decide 0] =
        some last ∧ last.isOver = true ∧ last.pushesOf u.id ≠ s.pushesOf u.id ∧
      timesOf Phase.isCalling (turnsOf u.id (loneStart.turns steadySetup
        (untilSet false ++ [.interrupt 0, .decide 0]))) = [0, 10] := by
  obtain ⟨s, t, u, cut, id, sent⟩ := exists_cutShort false
  have ends : (loneStart.after? steadySetup (untilSet false ++ .interrupt 0 ::
      [.decide 0, .advance 15, .settle 0, .advance 65, .wake 0, .decide 0])).any (fun s =>
        s.isOver && (s.pushesOf 0).length = 2) = true := by
    decide +kernel
  obtain ⟨last, run, ended⟩ := (Option.any_eq_true _ _).1 ends
  simp only [Bool.and_eq_true, decide_eq_true_eq] at ended
  obtain ⟨allOver, more⟩ := ended
  simp only [State.after?_append, cut.reached, State.after?, cut.made, Option.bind_some] at run
  refine ⟨s, t, u, last, cut, run, allOver, fun same => ?_, ?_⟩
  · rw [id] at same sent
    rw [same, sent] at more
    cases more
  · rw [id]
    decide +kernel

end Volley.Run
