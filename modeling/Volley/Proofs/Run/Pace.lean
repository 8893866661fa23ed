import Mathlib.Order.Bounds.Basic
import Volley.Proofs.Run.Course
import Volley.Proofs.Run.Report
import Volley.Proofs.Run.Accounting

namespace Volley.Run

variable {setup : Setup} {start last : State} {moves : List Move} {count limit now : Nat}
  {lengths : List Nat} {span : Span} {words : Nat → WordSource}

/-! ## Partial sums -/

def Setup.taken (setup : Setup) (lengths : List Nat) : Nat :=
  (lengths.map (· + setup.pauseLength)).sum

theorem Setup.taken_concat (setup : Setup) (lengths : List Nat) (length : Nat) :
    setup.taken (lengths ++ [length]) = setup.taken lengths + (length + setup.pauseLength) := by
  simp [taken]

theorem Setup.taken_eq (setup : Setup) (lengths : List Nat) :
    setup.taken lengths = lengths.sum + lengths.length * setup.pauseLength := by
  induction lengths using List.reverseRecOn with
  | nil => simp [taken]
  | append_singleton lengths length ih =>
      rw [taken_concat, ih, List.sum_append, List.sum_singleton, List.length_append,
        List.length_singleton, Nat.succ_mul]
      omega

theorem Setup.le_onward (setup : Setup) (now : Nat) : now ≤ setup.onward now := by
  unfold onward
  cases setup.thinkTime with
  | none => exact Nat.le_refl _
  | some pause => exact Nat.le_max_left _ _

theorem Setup.onward_le (setup : Setup) (now : Nat) :
    setup.onward now ≤ now + setup.pauseLength := by
  unfold onward
  cases thinkTime : setup.thinkTime with
  | none => exact Nat.le_add_right _ _
  | some pause => exact Nat.max_le.2 ⟨Nat.le_add_right _ _, setup.wakeTime_le now thinkTime⟩

theorem Setup.onward_eq (early : ∀ deadline, setup.deadline? = some deadline →
    setup.onward now < deadline) : setup.onward now = now + setup.pauseLength := by
  unfold onward at early ⊢
  cases thinkTime : setup.thinkTime with
  | none => simp [pauseLength, thinkTime]
  | some pause =>
      have length := Setup.pauseLength_eq thinkTime
      cases deadline? : setup.deadline? with
      | none =>
          simp [wakeTime, deadline?, length]
      | some deadline =>
          have early := early deadline deadline?
          simp only [thinkTime, wakeTime, deadline?] at early ⊢
          omega

theorem Setup.arrival_le (setup : Setup) (lengths : List Nat) :
    setup.arrival lengths ≤ setup.taken lengths := by
  induction lengths using List.reverseRecOn with
  | nil => exact Nat.le_refl _
  | append_singleton lengths length ih =>
      have onward := setup.onward_le (setup.arrival lengths + length)
      rw [arrival_concat, taken_concat]
      omega

theorem Setup.arrival_eq (early : ∀ deadline, setup.deadline? = some deadline →
    setup.arrival lengths < deadline) : setup.arrival lengths = setup.taken lengths := by
  induction lengths using List.reverseRecOn with
  | nil => rfl
  | append_singleton lengths length ih =>
      rw [arrival_concat] at early
      have later := setup.le_onward (setup.arrival lengths + length)
      have before := ih fun deadline given => by
        have early := early deadline given
        omega
      rw [arrival_concat, setup.onward_eq early, before, taken_concat, Nat.add_assoc]

theorem Setup.deadline?_of_duration (setup : Setup) (policy : setup.policy = .duration span) :
    setup.deadline? = some span.ceilMillis := by
  rw [deadline?, policy]

theorem Setup.lt_of_unfinished {iterations deadline : Nat}
    (unfinished : setup.isFinished iterations now = false)
    (given : setup.deadline? = some deadline) : now < deadline := by
  unfold isFinished at unfinished
  unfold deadline? at given
  cases policy : setup.policy with
  | iterations limit => simp [policy] at given
  | duration span =>
      simp only [policy, Option.some.injEq, decide_eq_false_iff_not] at given unfinished
      omega

theorem withBefore_congr {α β : Type} {f g : List α → α → β} {items : List α}
    (same : ∀ (index : Nat) (inside : index < items.length),
      f (items.take index) items[index] = g (items.take index) items[index]) :
    withBefore f items = withBefore g items := by
  apply List.ext_getElem
  · simp [withBefore]
  · intro index first _
    have inside : index < items.length := by simpa [withBefore] using first
    simpa [withBefore] using same index inside

theorem User.Course.begins_eq {u : User} {told : Prop} {turns : List Turned}
    (course : u.Course setup now told turns lengths) :
    timesOf Phase.isCalling turns = withBefore (fun before _ => setup.taken before) lengths := by
  rw [course.begun]
  apply withBefore_congr
  intro index inside
  exact Setup.arrival_eq fun deadline given =>
    Setup.lt_of_unfinished (course.unfinished index inside) given

theorem User.Course.taken_lt {u : User} {told : Prop} {turns : List Turned}
    (course : u.Course setup now told turns lengths) (policy : setup.policy = .duration span)
    {index : Nat} (inside : index < lengths.length) :
    setup.taken (lengths.take index) < span.ceilMillis := by
  have given := setup.deadline?_of_duration policy
  have unfinished := course.unfinished index inside
  have early := Setup.lt_of_unfinished unfinished given
  rwa [Setup.arrival_eq fun deadline given =>
    Setup.lt_of_unfinished unfinished given] at early

/-! ## The end of the run -/

theorem length_le_of_mem {user length : Nat} {pushes : List Push}
    (member : length ∈ setup.lengths user pushes) : length ≤ setup.delivery.limit := by
  obtain ⟨index, -, rfl⟩ := List.mem_mapIdx.1 member
  exact length_le _ _

theorem User.Course.rested {u : User} {turns : List Turned}
    (course : u.Course setup now False turns lengths) (done : u.phase = .done) :
    Rested setup turns lengths u.iterations ∧
      setup.isFinished u.iterations (setup.arrival lengths) = true ∧
        endOf turns = some (setup.arrival lengths) := by
  have place := course.place
  rw [done] at place
  obtain ⟨rested, told | finished⟩ := place
  · exact told.elim
  · exact ⟨rested, finished⟩

theorem course_of_silent (initial : start.IsInitial words count)
    (silent : start.Throughout setup moves fun s => s.channel.IsSilent)
    (run : start.after? setup moves = some last) :
    ∀ u ∈ last.users, u.Course setup last.now False
      (turnsOf u.id (start.turns setup moves)) (setup.lengths u.id (last.pushesOf u.id)) := by
  have resolute : start.Throughout setup moves fun s => s.channel.IsResolute :=
    fun passed first s reached _ => (silent passed first s reached).2
  intro u member
  have untold : (last.channel.value = true) = False := by
    simp [(silent moves (List.prefix_refl moves) last run).1]
  rw [← untold]
  exact course_of_run initial resolute run u member

theorem now_eq_max (initial : start.IsInitial words count)
    (run : start.after? setup moves = some last) (allOver : last.isOver = true) {ends : User → Nat}
    (ended : ∀ u ∈ last.users,
      endOf (turnsOf u.id (start.turns setup moves)) = some (ends u)) :
    last.now = (last.users.map ends).max?.getD 0 := by
  have bounded : ∀ u ∈ last.users, ends u ≤ last.now := by
    intro u member
    exact le_now_of_end initial run (ended u member)
  rcases last_turn_of_run initial run allOver with ⟨empty, now⟩ | ⟨u, member, present⟩
  · rw [empty, now]
    rfl
  · have same : ends u = last.now := Option.some.inj ((ended u member).symm.trans present)
    have longest : (last.users.map ends).max? = some last.now := by
      refine List.max?_eq_some_iff.2 ⟨List.mem_map.2 ⟨u, member, same⟩, ?_⟩
      intro time listed
      obtain ⟨v, among, rfl⟩ := List.mem_map.1 listed
      exact bounded v among
    rw [longest]
    rfl

/-- Users that nobody disturbs call as often as their limit says, and pause after each call, also
after the last one. -/
theorem iterations_course (initial : start.IsInitial words count)
    (policy : setup.policy = .iterations limit)
    (silent : start.Throughout setup moves fun s => s.channel.IsSilent)
    (run : start.after? setup moves = some last) (allOver : last.isOver = true)
    (survived : ∀ u ∈ last.users, u.phase.isCrashed = false) :
    let lengths (u : User) := setup.lengths u.id (last.pushesOf u.id)
    let turns (u : User) := turnsOf u.id (start.turns setup moves)
    (∀ u ∈ last.users,
      (lengths u).length = limit ∧
      timesOf Phase.isCalling (turns u) =
        (lengths u).mapIdx (fun index _ => setup.taken ((lengths u).take index)) ∧
      timesOf Phase.isThinking (turns u) = (if setup.thinkTime.isSome then
        (lengths u).mapIdx (fun index length => setup.taken ((lengths u).take index) + length)
        else []) ∧
      (timesOf Phase.isThinking (turns u)).length = (if setup.thinkTime.isSome then limit else 0) ∧
      endOf (turns u) = some ((lengths u).sum + limit * setup.pauseLength)) ∧
    ∀ ended, (Report.ofEnded last ended).elapsed = .ofMillis
      ((last.users.map fun u => (lengths u).sum + limit * setup.pauseLength).max?.getD 0) := by
  intro lengths turns
  have noDeadline : setup.deadline? = none := by simp [Setup.deadline?, policy]
  have arrival : ∀ lengths, setup.arrival lengths = setup.taken lengths :=
    fun lengths => Setup.arrival_eq fun deadline given => by simp [noDeadline] at given
  have untold : start.Throughout setup moves fun s => s.channel.value = false :=
    fun passed first s reached => (silent passed first s reached).1
  have each : ∀ u ∈ last.users, (lengths u).length = limit ∧
      timesOf Phase.isThinking (turns u) = setup.pauses (lengths u) ∧
      endOf (turns u) = some ((lengths u).sum + limit * setup.pauseLength) := by
    intro u member
    have done := State.done_of_isOver allOver member (survived u member)
    obtain ⟨rested, -, ended⟩ := (course_of_silent initial silent run u member).rested done
    have above := le_iterations initial policy untold run u member done
    have below := iterations_le initial policy run u member
    have all : (lengths u).length = limit := rested.counted.trans (by omega)
    refine ⟨all, rested.paused, ended.trans ?_⟩
    rw [arrival, setup.taken_eq]
    exact congrArg (fun calls => some ((lengths u).sum + calls * setup.pauseLength)) all
  refine ⟨fun u member => ?_, fun ended => ?_⟩
  · obtain ⟨all, paused, ended⟩ := each u member
    have pauses : setup.pauses (lengths u) = if setup.thinkTime.isSome then
        (lengths u).mapIdx (fun index length => setup.taken ((lengths u).take index) + length)
        else [] := by
      simp only [Setup.pauses, withBefore, arrival]
    refine ⟨all, (course_of_silent initial silent run u member).begins_eq, paused.trans pauses, ?_,
      ended⟩
    rw [paused, pauses]
    split
    · rw [List.length_mapIdx, all]
    · rfl
  · exact congrArg Span.ofMillis
      (now_eq_max initial run allOver fun u member => (each u member).2.2)

def steadySetup : Setup :=
  { pairSetup with
    policy := .iterations 2
    thinkTime := some (.ofMillis 50)
    transport := fun call => if call.user = 0 then ⟨5, .answer 200 "", []⟩ else ⟨0, .silence, []⟩ }

def steadyMoves : List Move :=
  [.start 0, .start 1, .decide 0, .decide 1, .signal .close, .advance 5, .settle 0, .advance 55,
    .wake 0, .decide 0, .advance 60, .settle 0, .advance 100, .settle 1, .advance 110, .wake 0,
    .decide 0, .advance 150, .wake 1, .decide 1, .advance 250, .settle 1, .advance 300, .wake 1,
    .decide 1]

theorem iterations_course_steady :
    ∃ last, pairStart.after? steadySetup steadyMoves = some last ∧ last.isOver = true ∧
      (∀ u ∈ last.users, (timesOf Phase.isThinking
        (turnsOf u.id (pairStart.turns steadySetup steadyMoves))).length = 2) ∧
      ∀ ended, (Report.ofEnded last ended).elapsed = .ofMillis ((last.users.map fun u =>
        (steadySetup.lengths u.id (last.pushesOf u.id)).sum + 2 * 50).max?.getD 0) := by
  have ends : (pairStart.after? steadySetup steadyMoves).any (fun s =>
      s.isOver && s.users.all (!·.phase.isCrashed)) = true := by
    decide +kernel
  obtain ⟨last, run, ended⟩ := (Option.any_eq_true _ _).1 ends
  obtain ⟨allOver, survived⟩ := Bool.and_eq_true_iff.1 ended
  have survived : ∀ u ∈ last.users, u.phase.isCrashed = false := by simpa using survived
  obtain ⟨each, elapsed⟩ := iterations_course (State.initial_isInitial _ _ _ _ 2)
    (show steadySetup.policy = .iterations 2 from rfl)
    (State.throughout_silent (by decide) ⟨rfl, rfl⟩) run allOver survived
  have pause : steadySetup.pauseLength = 50 := by decide
  rw [pause] at elapsed
  refine ⟨last, run, allOver, fun u member => ?_, elapsed⟩
  obtain ⟨-, -, -, pauses, -⟩ := each u member
  exact pauses

def loneStart : State := .initial .start {} .empty (fun _ => .ofWords []) 1

/-- A single iteration is followed by a pause, which the run waits for. -/
theorem lone_iteration_pauses :
    let setup := { steadySetup with policy := .iterations 1 }
    let moves : List Move :=
      [.start 0, .decide 0, .advance 5, .settle 0, .advance 55, .wake 0, .decide 0]
    ∃ last, loneStart.after? setup moves = some last ∧ last.isOver = true ∧
      (∀ u ∈ last.users, u.phase.isCrashed = false) ∧
      timesOf Phase.isThinking (turnsOf 0 (loneStart.turns setup moves)) = [5] ∧
      ∀ ended, (Report.ofEnded last ended).elapsed = .ofMillis 55 := by
  intro setup moves
  have ends : (loneStart.after? setup moves).any (fun s =>
      s.isOver && s.users.all (!·.phase.isCrashed) && s.now = 55) = true := by
    decide +kernel
  obtain ⟨last, run, ended⟩ := (Option.any_eq_true _ _).1 ends
  simp only [Bool.and_eq_true, List.all_eq_true, Bool.not_eq_true', decide_eq_true_eq] at ended
  obtain ⟨⟨allOver, survived⟩, now⟩ := ended
  exact ⟨last, run, allOver, survived, by decide +kernel, fun _ => congrArg Span.ofMillis now⟩

/-! ## Durations -/

theorem Setup.onward_of_late (policy : setup.policy = .duration span)
    (late : span.ceilMillis ≤ setup.onward now) :
    setup.onward now = max span.ceilMillis now := by
  have given := setup.deadline?_of_duration policy
  unfold onward at late ⊢
  cases thinkTime : setup.thinkTime with
  | none =>
      simp only [thinkTime] at late
      exact (Nat.max_eq_right late).symm
  | some pause =>
      simp only [thinkTime, wakeTime, given] at late ⊢
      omega

theorem Setup.arrival_of_late (policy : setup.policy = .duration span) {before : List Nat}
    {length : Nat} (early : setup.arrival before < span.ceilMillis)
    (late : span.ceilMillis ≤ setup.arrival (before ++ [length])) :
    setup.arrival (before ++ [length]) =
      max span.ceilMillis (setup.taken before + length) := by
  have given := setup.deadline?_of_duration policy
  have same : setup.arrival before = setup.taken before := Setup.arrival_eq fun deadline other => by
    rw [given] at other
    cases other
    exact early
  rw [arrival_concat] at late ⊢
  rw [setup.onward_of_late policy late, same]

theorem User.Course.arrival_lt {u : User} {told : Prop} {turns : List Turned} {before : List Nat}
    {length : Nat} (course : u.Course setup now told turns (before ++ [length]))
    (policy : setup.policy = .duration span) : setup.arrival before < span.ceilMillis := by
  have given := setup.deadline?_of_duration policy
  have unfinished := course.unfinished before.length (by simp)
  rw [List.take_left] at unfinished
  exact Setup.lt_of_unfinished unfinished given

theorem User.Course.end_of_duration {u : User} {turns : List Turned}
    (course : u.Course setup now False turns lengths) (policy : setup.policy = .duration span)
    (positive : 0 < span.ceilMillis) (done : u.phase = .done) :
    ∃ before length, lengths = before ++ [length] ∧ span.ceilMillis ≤ setup.taken lengths ∧
      endOf turns = some (max span.ceilMillis (setup.taken before + length)) := by
  obtain ⟨-, finished, ended⟩ := course.rested done
  have late : span.ceilMillis ≤ setup.arrival lengths := by
    simpa [Setup.isFinished, policy] using finished
  rcases List.eq_nil_or_concat' lengths with rfl | ⟨before, length, rfl⟩
  · -- At the start the duration is still to come.
    exact absurd late (Nat.not_le_of_lt positive)
  · have early := course.arrival_lt policy
    refine ⟨before, length, rfl, Nat.le_trans late (setup.arrival_le _), ?_⟩
    rw [ended, Setup.arrival_of_late policy early late]

theorem User.Course.end_le {u : User} {turns : List Turned} {ended : Nat}
    (course : u.Course setup now False turns lengths) (policy : setup.policy = .duration span)
    (positive : 0 < span.ceilMillis) (limited : ∀ length ∈ lengths, length ≤ setup.delivery.limit)
    (allOver : u.phase.isOver = true) (leaves : endOf turns = some ended) :
    ended ≤ span.ceilMillis + (setup.delivery.limit - 1) := by
  cases phase : u.phase with
  | done =>
      obtain ⟨before, length, rfl, -, last⟩ := course.end_of_duration policy positive phase
      have early : setup.taken ((before ++ [length]).take before.length) < span.ceilMillis :=
        course.taken_lt policy (by simp)
      rw [List.take_left] at early
      have short := limited length (by simp)
      rw [last] at leaves
      have same := Option.some.inj leaves
      omega
  | crashed message =>
      have place := course.place
      rw [phase] at place
      rcases place with ⟨before, length, rfl, last⟩ | ⟨unfinished, last⟩
      · have early := course.arrival_lt policy
        have short := limited length (by simp)
        rw [last] at leaves
        have same := Option.some.inj leaves
        omega
      · have early := Setup.lt_of_unfinished unfinished (setup.deadline?_of_duration policy)
        rw [last] at leaves
        have same := Option.some.inj leaves
        omega
  | _ => simp [phase, Phase.isOver] at allOver

/-- Users that nobody disturbs call until their calls and pauses have filled the duration. So a run
lasts no less than the duration, and less than the duration and the limit of one call, if calls are
given any time at all. -/
theorem duration_course (initial : start.IsInitial words count)
    (policy : setup.policy = .duration span) (positive : 0 < span.ceilMillis)
    (silent : start.Throughout setup moves fun s => s.channel.IsSilent)
    (run : start.after? setup moves = some last) (allOver : last.isOver = true) :
    let duration := span.ceilMillis
    (∀ u ∈ last.users, u.phase.isCrashed = false →
      let lengths := setup.lengths u.id (last.pushesOf u.id)
      let turns := turnsOf u.id (start.turns setup moves)
      (∀ length ∈ lengths, length ≤ setup.delivery.limit) ∧
      lengths.length = u.iterations ∧ 0 < u.iterations ∧
      IsLeast {calls | duration ≤ setup.taken (lengths.take calls)} u.iterations ∧
      timesOf Phase.isCalling turns =
        lengths.mapIdx (fun index _ => setup.taken (lengths.take index)) ∧
      (∀ time ∈ timesOf Phase.isCalling turns, time < duration) ∧
      (∀ turn ∈ turns, ∀ ends, turn.phase = .thinking ends →
        ends = min (turn.time + setup.pauseLength) duration) ∧
      ∃ begun length, (timesOf Phase.isCalling turns).getLast? = some begun ∧
        lengths.getLast? = some length ∧ endOf turns = some (max duration (begun + length))) ∧
    ∀ ended, (∃ u ∈ last.users, u.phase.isCrashed = false) →
      (Span.ofMillis duration).nanos ≤ (Report.ofEnded last ended).elapsed.nanos ∧
      (0 < setup.delivery.limit → (Report.ofEnded last ended).elapsed.nanos <
        (Span.ofMillis (duration + setup.delivery.limit)).nanos) ∧
      (setup.delivery.limit = 0 →
        (Report.ofEnded last ended).elapsed = .ofMillis duration) := by
  intro duration
  have courses := course_of_silent initial silent run
  have given : setup.deadline? = some duration := setup.deadline?_of_duration policy
  constructor
  · intro u member survived lengths turns
    have course := courses u member
    have done := State.done_of_isOver allOver member survived
    have counted : lengths.length = u.iterations := (course.rested done).1.counted
    obtain ⟨before, length, made, filled, ended⟩ := course.end_of_duration policy positive done
    have made : lengths = before ++ [length] := made
    have begins := course.begins_eq
    have early : ∀ index < u.iterations, setup.taken (lengths.take index) < duration :=
      fun index inside => course.taken_lt policy (counted.symm ▸ inside)
    have some_call : 0 < u.iterations := by simp [← counted, made]
    refine ⟨fun length => length_le_of_mem, counted, some_call, ⟨?_, ?_⟩, begins, ?_, ?_, ?_⟩
    · change duration ≤ setup.taken (lengths.take u.iterations)
      rw [← counted, List.take_length]
      exact filled
    · intro calls enough
      by_contra fewer
      exact absurd (early calls (Nat.lt_of_not_le fewer)) (Nat.not_lt_of_le enough)
    · intro time listed
      rw [begins] at listed
      obtain ⟨index, inside, rfl⟩ := List.mem_mapIdx.1 listed
      exact early index (counted ▸ inside)
    · intro turn among ends thinking
      obtain ⟨pause, thinkTime, rfl⟩ :=
        ends_of_pause initial run (List.mem_filter.1 among).1 thinking
      simp only [Setup.wakeTime, given, Setup.pauseLength_eq thinkTime]
    · refine ⟨setup.taken before, length, ?_, by simp [made], ended⟩
      have whole : timesOf Phase.isCalling turns =
          withBefore (fun before _ => setup.taken before) (before ++ [length]) := made ▸ begins
      rw [whole, withBefore_concat, List.getLast?_concat]
  · rintro ended ⟨u, member, survived⟩
    have done := State.done_of_isOver allOver member survived
    obtain ⟨before, length, -, -, leaves⟩ := (courses u member).end_of_duration policy positive done
    have longer : duration ≤ last.now :=
      Nat.le_trans (Nat.le_max_left _ _) (le_now_of_end initial run leaves)
    -- The last turn of the run is that of a user whose last call began in time.
    have shorter : last.now ≤ duration + (setup.delivery.limit - 1) := by
      rcases last_turn_of_run initial run allOver with ⟨empty, -⟩ | ⟨v, among, present⟩
      · simp [empty] at member
      · have gone := List.all_eq_true.1 allOver v among
        exact (courses v among).end_le policy positive (fun length => length_le_of_mem) gone present
    refine ⟨Span.ofMillis_le_iff.2 longer, fun lasts => Span.ofMillis_lt_iff.2 ?_, fun none => ?_⟩
    · omega
    · exact congrArg Span.ofMillis (by omega)

def timedSetup : Setup := { steadySetup with policy := .duration (.ofMillis 160) }

def timedMoves : List Move :=
  [.start 0, .start 1, .decide 0, .decide 1, .advance 5, .settle 0, .advance 55, .wake 0,
    .decide 0, .advance 60, .settle 0, .advance 100, .settle 1, .advance 110, .wake 0, .decide 0,
    .advance 115, .settle 0, .advance 150, .wake 1, .decide 1, .advance 160, .wake 0, .decide 0,
    .advance 250, .settle 1, .wake 1, .decide 1]

theorem duration_course_timed :
    ∃ last, pairStart.after? timedSetup timedMoves = some last ∧ last.isOver = true ∧
      (∀ u ∈ last.users, 0 < u.iterations ∧
        ∀ time ∈ timesOf Phase.isCalling (turnsOf u.id (pairStart.turns timedSetup timedMoves)),
          time < 160) ∧
      ∀ ended, (Span.ofMillis 160).nanos ≤ (Report.ofEnded last ended).elapsed.nanos ∧
        (Report.ofEnded last ended).elapsed.nanos < (Span.ofMillis (160 + 100)).nanos := by
  have ends : (pairStart.after? timedSetup timedMoves).any (fun s =>
      s.isOver && s.users.all (!·.phase.isCrashed) && s.users.any (!·.phase.isCrashed)) = true := by
    decide +kernel
  obtain ⟨last, run, ended⟩ := (Option.any_eq_true _ _).1 ends
  simp only [Bool.and_eq_true, List.all_eq_true, List.any_eq_true, Bool.not_eq_true'] at ended
  obtain ⟨⟨allOver, survived⟩, survivor⟩ := ended
  have span : (Span.ofMillis 160).ceilMillis = 160 := by decide
  have limit : timedSetup.delivery.limit = 100 := by decide
  obtain ⟨each, elapsed⟩ := duration_course (State.initial_isInitial _ _ _ _ 2)
    (show timedSetup.policy = .duration (.ofMillis 160) from rfl) (by decide)
    (State.throughout_silent (by decide) ⟨rfl, rfl⟩) run allOver
  rw [span, limit] at elapsed
  rw [span] at each
  refine ⟨last, run, allOver, fun u member => ?_, fun ended => ?_⟩
  · obtain ⟨-, -, some_call, -, -, early, -⟩ := each u member (survived u member)
    exact ⟨some_call, early⟩
  · obtain ⟨longer, shorter, -⟩ := elapsed ended survivor
    exact ⟨longer, shorter (by decide)⟩

/-- Calls that are given no time do not keep a run from lasting as long as its duration and the
limit of a call. -/
theorem instant_calls_fill_duration :
    let setup := { steadySetup with
      policy := .duration (.ofMillis 10)
      thinkTime := some (.ofMillis 10)
      delivery := { steadySetup.delivery with timeout := .ofMillis 0 }
      transport := fun _ => ⟨0, .answer 200 "", []⟩ }
    let moves : List Move := [.start 0, .decide 0, .settle 0, .advance 10, .wake 0, .decide 0]
    ∃ last, loneStart.after? setup moves = some last ∧ last.isOver = true ∧
      loneStart.Throughout setup moves (fun s => s.channel.IsSilent) ∧
      (∃ u ∈ last.users, u.phase.isCrashed = false) ∧
      ∀ ended, ¬(Report.ofEnded last ended).elapsed.nanos <
        (Span.ofMillis (10 + setup.delivery.limit)).nanos := by
  intro setup moves
  have ends : (loneStart.after? setup moves).any (fun s =>
      s.isOver && s.users.any (!·.phase.isCrashed) && s.now = 10) = true := by
    decide +kernel
  obtain ⟨last, run, ended⟩ := (Option.any_eq_true _ _).1 ends
  simp only [Bool.and_eq_true, List.any_eq_true, Bool.not_eq_true', decide_eq_true_eq] at ended
  obtain ⟨⟨allOver, survivor⟩, now⟩ := ended
  refine ⟨last, run, allOver, State.throughout_silent (by decide) ⟨rfl, rfl⟩, survivor,
    fun ended shorter => ?_⟩
  have limit : setup.delivery.limit = 0 := by decide
  have elapsed : (Report.ofEnded last ended).elapsed = .ofMillis 10 := congrArg Span.ofMillis now
  rw [elapsed, limit] at shorter
  exact absurd shorter (Nat.lt_irrefl _)

end Volley.Run
