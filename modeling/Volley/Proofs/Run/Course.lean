import Volley.Proofs.Run.Fate
import Volley.Proofs.Run.Turns

/-!
Only a channel that was set cuts a pause short. If it is never set but to `true`, the user then
looks at it and stops.
-/

namespace Volley

def Channel.IsSilent (c : Channel) : Prop := c.value = false ∧ c.version = 0

def Channel.IsResolute (c : Channel) : Prop := c.value = false → c.version = 0

theorem Channel.IsResolute.told_of_news {c : Channel} {seen : Nat} (resolute : c.IsResolute)
    (seen_le : seen ≤ c.version) (news : c.hasNews seen = true) : c.value = true := by
  by_contra untold
  have version := resolute (by simpa using untold)
  simp only [Channel.hasNews, decide_eq_true_eq] at news
  omega

namespace Run

variable {setup : Setup} {s t start last : State} {move : Move} {moves : List Move} {count : Nat}
  {words : Nat → WordSource}

/-! ## Items with those before them -/

def withBefore {α β : Type} (f : List α → α → β) (items : List α) : List β :=
  items.mapIdx fun index item => f (items.take index) item

theorem withBefore_concat {α β : Type} (f : List α → α → β) (items : List α) (item : α) :
    withBefore f (items ++ [item]) = withBefore f items ++ [f items item] := by
  have same : ∀ index (inside : index < items.length),
      (items ++ [item]).take index = items.take index := by
    intro index inside
    exact List.take_append_of_le_length (Nat.le_of_lt inside)
  apply List.ext_getElem
  · simp [withBefore]
  · intro index first second
    simp only [withBefore, List.length_mapIdx, List.length_append, List.length_singleton] at first
    by_cases inside : index < items.length
    · simp [withBefore, inside, same index inside, List.getElem_append_left]
    · have atEnd : index = items.length := by omega
      subst atEnd
      simp [withBefore]

/-! ## The times of a course -/

def Setup.lengths (setup : Setup) (user : Nat) (pushes : List Push) : List Nat :=
  pushes.mapIdx fun index push =>
    setup.delivery.length (setup.transport ⟨user, index, push⟩)

def Setup.onward (setup : Setup) (now : Nat) : Nat :=
  match setup.thinkTime with
  | none => now
  | some pause => max now (setup.wakeTime now pause)

/-- When a user is ready for a further call whose calls took the given lengths. -/
def Setup.arrival (setup : Setup) (lengths : List Nat) : Nat :=
  lengths.foldl (fun time length => setup.onward (time + length)) 0

def Setup.begins (setup : Setup) (lengths : List Nat) : List Nat :=
  withBefore (fun before _ => setup.arrival before) lengths

def Setup.pauses (setup : Setup) (lengths : List Nat) : List Nat :=
  if setup.thinkTime.isSome then
    withBefore (fun before length => setup.arrival before + length) lengths
  else []

theorem Setup.lengths_concat (setup : Setup) (user : Nat) (pushes : List Push) (push : Push) :
    setup.lengths user (pushes ++ [push]) = setup.lengths user pushes ++
      [setup.delivery.length (setup.transport ⟨user, pushes.length, push⟩)] :=
  List.mapIdx_concat

theorem Setup.length_lengths (setup : Setup) (user : Nat) (pushes : List Push) :
    (setup.lengths user pushes).length = pushes.length :=
  List.length_mapIdx

theorem Setup.arrival_concat (setup : Setup) (lengths : List Nat) (length : Nat) :
    setup.arrival (lengths ++ [length]) = setup.onward (setup.arrival lengths + length) := by
  simp [arrival]

/-! ## The course -/

structure Rested (setup : Setup) (turns : List Turned) (lengths : List Nat) (iterations : Nat) :
    Prop where
  counted : lengths.length = iterations
  paused : timesOf Phase.isThinking turns = setup.pauses lengths

/-- Where a user is in its course whose calls so far have the given lengths. A user that was told to
stop may have been sent on before its pause was over. -/
def Phase.Place (setup : Setup) (now : Nat) (told : Prop) (turns : List Turned)
    (lengths : List Nat) (iterations : Nat) : Phase → Prop
  | .fresh => Rested setup turns lengths iterations ∧ lengths = [] ∧ now = 0
  | .ready => Rested setup turns lengths iterations ∧ (told ∨ now = setup.arrival lengths)
  | .calling _ _ ends => ∃ before length, lengths = before ++ [length] ∧
      Rested setup turns before iterations ∧ ends = setup.arrival before + length ∧ now ≤ ends
  | .thinking ends => Rested setup turns lengths iterations ∧
      max now ends = setup.arrival lengths
  | .done => Rested setup turns lengths iterations ∧ (told ∨
      setup.isFinished iterations (setup.arrival lengths) = true ∧
        endOf turns = some (setup.arrival lengths))
  | .crashed _ => (∃ before length, lengths = before ++ [length] ∧
      endOf turns = some (setup.arrival before + length)) ∨
    setup.isFinished iterations (setup.arrival lengths) = false ∧
      endOf turns = some (setup.arrival lengths)

structure User.Course (setup : Setup) (now : Nat) (told : Prop) (turns : List Turned)
    (lengths : List Nat) (u : User) : Prop where
  begun : timesOf Phase.isCalling turns = setup.begins lengths
  unfinished : ∀ index < lengths.length,
    setup.isFinished index (setup.arrival (lengths.take index)) = false
  place : u.phase.Place setup now told turns lengths u.iterations

theorem Rested.concat {turns : List Turned} {lengths : List Nat} {iterations : Nat}
    (rested : Rested setup turns lengths iterations) {turn : Turned}
    (other : turn.phase.isThinking = false) : Rested setup (turns ++ [turn]) lengths iterations :=
  ⟨rested.counted, by rw [timesOf_concat, other, rested.paused]; simp⟩

theorem Setup.pauses_concat (setup : Setup) (lengths : List Nat) (length : Nat) :
    setup.pauses (lengths ++ [length]) = setup.pauses lengths ++
      if setup.thinkTime.isSome then [setup.arrival lengths + length] else [] := by
  unfold pauses
  split
  · exact withBefore_concat _ _ _
  · rfl

/-! ## Turns -/

variable {turns : List Turned} {lengths : List Nat} {told : Prop}

theorem User.Course.of_place {u v : User} {now : Nat}
    (course : u.Course setup now told turns lengths) {turn : Turned}
    (other : turn.phase.isCalling = false)
    (place : v.phase.Place setup now told (turns ++ [turn]) lengths v.iterations) :
    v.Course setup now told (turns ++ [turn]) lengths :=
  ⟨by rw [timesOf_concat, other, course.begun]; simp, course.unfinished, place⟩

theorem User.Course.of_call {u : User} {words : WordSource} {push : Push} {reply : Reply}
    {now length user : Nat} (course : u.Course setup now told turns lengths)
    (rested : Rested setup turns lengths u.iterations) (arrived : now = setup.arrival lengths)
    (unfinished : setup.isFinished u.iterations now = false) :
    User.Course setup now told (turns ++ [⟨user, now, .calling push reply (now + length)⟩])
      (lengths ++ [length]) { u with words, phase := .calling push reply (now + length) } := by
  refine ⟨?_, ?_, lengths, length, rfl, rested.concat rfl, by rw [arrived], Nat.le_add_right _ _⟩
  · rw [timesOf_concat, course.begun, arrived]
    exact (withBefore_concat _ _ _).symm
  · intro index inside
    by_cases past : index < lengths.length
    · rw [List.take_append_of_le_length (Nat.le_of_lt past)]
      exact course.unfinished index past
    · have last : index = lengths.length := by
        simp only [List.length_append, List.length_singleton] at inside
        omega
      rw [last, List.take_left, ← arrived, rested.counted]
      exact unfinished

theorem Setup.isCalling_resume (setup : Setup) (now : Nat) :
    (setup.resume now).isCalling = false :=
  setup.resume_induction now rfl (fun _ => rfl) rfl

theorem Setup.resume_onward (setup : Setup) (now : Nat) :
    (setup.resume now = .ready ∧ setup.thinkTime.isSome = false ∧ setup.onward now = now) ∨
    (∃ ends, setup.resume now = .thinking ends ∧ setup.thinkTime.isSome = true ∧
      setup.onward now = max now ends) ∨
    setup.resume now = .crashed overflow := by
  unfold resume onward
  cases setup.thinkTime with
  | none => exact .inl ⟨rfl, rfl, rfl⟩
  | some pause =>
      dsimp only
      cases setup.holds (now + pause.ceilMillis) with
      | true => exact .inr (.inl ⟨_, rfl, rfl, rfl⟩)
      | false => exact .inr (.inr rfl)

theorem place_resume {before : List Nat} {length now iterations user : Nat}
    (rested : Rested setup turns before iterations)
    (present : now = setup.arrival before + length) :
    (setup.resume now).Place setup now told (turns ++ [⟨user, now, setup.resume now⟩])
      (before ++ [length]) (iterations + 1) := by
  have counted : (before ++ [length]).length = iterations + 1 := by simp [rested.counted]
  have arrival : setup.arrival (before ++ [length]) = setup.onward now := by
    rw [setup.arrival_concat, present]
  have paused := setup.pauses_concat before length
  rw [← rested.paused, ← present] at paused
  rcases setup.resume_onward now with
    ⟨resumed, noPause, onward⟩ | ⟨ends, resumed, pause, onward⟩ | resumed
  · rw [resumed]
    refine ⟨⟨counted, ?_⟩, .inr (by rw [arrival, onward])⟩
    rw [paused, noPause]
    exact timesOf_concat _ _ _
  · rw [resumed]
    refine ⟨⟨counted, ?_⟩, by rw [arrival, onward]⟩
    rw [paused, pause]
    exact timesOf_concat _ _ _
  · rw [resumed]
    exact .inl ⟨before, length, rfl, by rw [endOf_concat, present]⟩

theorem User.Course.step {u v : User} {sent : Option Push} {outcome : Option Outcome}
    {pushes : List Push}
    (course : u.Course setup s.now (s.channel.value = true) turns (setup.lengths u.id pushes))
    (step : u.Step setup s sent outcome v)
    (noticed : s.channel.hasNews u.seen = true → s.channel.value = true) :
    v.Course setup s.now (s.channel.value = true) (turns ++ [⟨v.id, s.now, v.phase⟩])
      (setup.lengths u.id (pushes ++ sent.toList)) := by
  have place := course.place
  cases step with
  | start fresh =>
      rw [fresh] at place
      obtain ⟨rested, unsent, now⟩ := place
      simp only [Option.toList_none, List.append_nil]
      exact course.of_place rfl ⟨rested.concat rfl, .inr (by rw [unsent, now]; rfl)⟩
  | stop ready told =>
      rw [ready] at place
      simp only [Option.toList_none, List.append_nil]
      exact course.of_place rfl ⟨place.1.concat rfl, .inl told⟩
  | finish ready untold finished =>
      rw [ready] at place
      obtain ⟨rested, told | arrived⟩ := place
      · simp [untold] at told
      · simp only [Option.toList_none, List.append_nil]
        refine course.of_place rfl ⟨rested.concat rfl, .inr ⟨?_, ?_⟩⟩
        · rw [← arrived]
          exact finished
        · rw [endOf_concat, arrived]
  | @call push words ready untold unfinished composed =>
      rw [ready] at place
      obtain ⟨rested, told | arrived⟩ := place
      · simp [untold] at told
      · have index : pushes.length = u.iterations := by
          rw [← rested.counted, setup.length_lengths]
        simp only [Option.toList_some, setup.lengths_concat, index]
        exact course.of_call rested arrived unfinished
  | spoil ready untold unfinished spoiled =>
      rw [ready] at place
      obtain ⟨rested, told | arrived⟩ := place
      · simp [untold] at told
      · simp only [Option.toList_none, List.append_nil]
        refine course.of_place rfl (.inr ⟨?_, by rw [endOf_concat, arrived]⟩)
        rw [← arrived]
        exact unfinished
  | crash calling due settled =>
      rw [calling] at place
      obtain ⟨before, length, made, -, ends, bound⟩ := place
      simp only [Option.toList_none, List.append_nil]
      refine course.of_place rfl (.inl ⟨before, length, made, ?_⟩)
      rw [endOf_concat, ← ends]
      exact congrArg some (Nat.le_antisymm bound due)
  | goOn calling due settled =>
      rw [calling] at place
      obtain ⟨before, length, made, rested, ends, bound⟩ := place
      have present := (Nat.le_antisymm bound due).trans ends
      simp only [Option.toList_none, List.append_nil]
      refine course.of_place (setup.isCalling_resume s.now) ?_
      rw [made]
      exact place_resume rested present
  | wake thinking due =>
      rw [thinking] at place
      obtain ⟨rested, arrived⟩ := place
      simp only [Option.toList_none, List.append_nil]
      refine course.of_place rfl ⟨rested.concat rfl, .inr ?_⟩
      rw [← arrived, Nat.max_eq_left due]
  | interrupt thinking news =>
      rw [thinking] at place
      simp only [Option.toList_none, List.append_nil]
      exact course.of_place rfl ⟨place.1.concat rfl, .inl (noticed news)⟩

theorem User.Course.frame {u : User} {later : Prop}
    (course : u.Course setup s.now told turns lengths) (still : told → later)
    (member : u ∈ s.users)
    (time : t.now = s.now ∨ s.now < t.now ∧ s.isQuietBefore t.now = true) :
    u.Course setup t.now later turns lengths := by
  refine ⟨course.begun, course.unfinished, ?_⟩
  have place := course.place
  have waits : t.now = s.now ∨ u.phase.isOver = true ∨
      ∃ ends, u.phase.ends? = some ends ∧ s.now ≤ t.now ∧ t.now ≤ ends := by
    rcases time with same | ⟨later, quiet⟩
    · exact .inl same
    · cases active : u.phase.isOver with
      | true => exact .inr (.inl rfl)
      | false =>
          obtain ⟨ends, waits, before⟩ := State.exists_ends quiet later member active
          exact .inr (.inr ⟨ends, waits, Nat.le_of_lt later, before⟩)
  cases phase : u.phase with
  | fresh =>
      rw [phase] at place waits
      obtain ⟨rested, unsent, now⟩ := place
      rcases waits with same | ended | ⟨_, waits, -⟩
      · exact ⟨rested, unsent, same.trans now⟩
      · cases ended
      · cases waits
  | ready =>
      rw [phase] at place waits
      rcases waits with same | ended | ⟨_, waits, -⟩
      · rw [same]
        exact ⟨place.1, place.2.imp_left still⟩
      · cases ended
      · cases waits
  | calling push reply ends =>
      rw [phase] at place waits
      obtain ⟨before, length, made, rested, expected, bound⟩ := place
      refine ⟨before, length, made, rested, expected, ?_⟩
      rcases waits with same | ended | ⟨_, ⟨⟩, -, within⟩
      · rwa [same]
      · cases ended
      · exact within
  | thinking ends =>
      rw [phase] at place waits
      refine ⟨place.1, ?_⟩
      rw [← place.2]
      rcases waits with same | ended | ⟨_, ⟨⟩, past, within⟩
      · rw [same]
      · cases ended
      · rw [Nat.max_eq_right within, Nat.max_eq_right (Nat.le_trans past within)]
  | done =>
      rw [phase] at place
      exact ⟨place.1, place.2.imp_left still⟩
  | crashed message =>
      rw [phase] at place
      exact place

/-! ## The channel along a run -/

theorem State.Step.channel_cases (step : s.Step setup move t) :
    t.channel = s.channel ∨
      ∃ signal, move = .signal signal ∧ t.channel = s.channel.apply signal := by
  cases step with
  | turn mover returned turn => exact .inl turn.channel
  | signal signal => exact .inr ⟨signal, rfl, rfl⟩
  | advance later goesOn quiet => exact .inl rfl

theorem State.Step.stays_told (step : s.Step setup move t) (resolute : t.channel.IsResolute)
    (before : s.channel.value = true) : t.channel.value = true := by
  rcases step.channel_cases with same | ⟨signal, -, after⟩
  · rwa [same]
  · rw [after] at resolute ⊢
    cases signal with
    | send value =>
        cases isOpen : s.channel.isOpen with
        | true =>
            -- A channel that was just set has a version.
            by_contra untold
            have version := resolute (by simpa using untold)
            simp [Channel.apply, isOpen] at version
        | false => simpa [Channel.apply, isOpen] using before
    | close => exact before

theorem State.throughout_silent (quiet : ∀ move ∈ moves, ∀ value, move ≠ .signal (.send value))
    (before : start.channel.IsSilent) :
    start.Throughout setup moves fun s => s.channel.IsSilent := by
  refine throughout_of_step _ (fun {s t move} member before step => ?_) before
  rcases step.channel_cases with same | ⟨signal, rfl, after⟩
  · rwa [same]
  · rw [after]
    cases signal with
    | send value => exact absurd rfl (quiet _ member value)
    | close => exact before

theorem State.throughout_resolute (firm : ∀ move ∈ moves, move ≠ .signal (.send false))
    (before : start.channel.IsResolute) :
    start.Throughout setup moves fun s => s.channel.IsResolute := by
  refine throughout_of_step _ (fun {s t move} member before step => ?_) before
  rcases step.channel_cases with same | ⟨signal, rfl, after⟩
  · rwa [same]
  · rw [after]
    cases signal with
    | send value =>
        cases value with
        | true =>
            intro untold
            cases isOpen : s.channel.isOpen with
            | true => simp [Channel.apply, isOpen] at untold
            | false =>
                rw [Channel.apply_of_closed isOpen] at untold ⊢
                exact before untold
        | false => exact absurd rfl (firm _ member)
    | close => exact before

/-! ## Runs -/

/-- As long as the channel is set to nothing but `true`, every user keeps to its course, from which
only those that are told to stop depart. -/
theorem course_of_run (initial : start.IsInitial words count)
    (resolute : start.Throughout setup moves fun s => s.channel.IsResolute)
    (run : start.after? setup moves = some last) :
    ∀ u ∈ last.users, u.Course setup last.now (last.channel.value = true)
      (turnsOf u.id (start.turns setup moves)) (setup.lengths u.id (last.pushesOf u.id)) := by
  refine State.run_induction_throughout _ (fun moves s => ∀ u ∈ s.users,
    u.Course setup s.now (s.channel.value = true) (turnsOf u.id (start.turns setup moves))
      (setup.lengths u.id (s.pushesOf u.id))) resolute ?_ ?_ run
  · refine initial.forall_users fun _ => ?_
    have unsent : ∀ user, start.pushesOf user = [] := by simp [State.pushesOf, initial.posts]
    rw [unsent]
    refine ⟨rfl, fun index before => absurd before (Nat.not_lt_zero index), ⟨rfl, ?_⟩, rfl,
      initial.now⟩
    simp [Setup.pauses, Setup.lengths, withBefore, timesOf, turnsOf, State.turns]
  · intro moves s move t before firm firmAfter courses made w member
    have numbered := initial.numbered.after? before
    rw [State.turns_concat before, turnsOf_append]
    rcases State.turn_cases numbered made member with
      ⟨u, sent, outcome, turn, turned⟩ | ⟨unchanged, posted, turned, time⟩
    · have mover := List.mem_of_getElem? turn.user
      have timely := timely_of_run initial before u mover
      have posted := turn.pushesOf numbered w.id
      rw [if_pos rfl] at posted
      have course := (courses u mover).step turn.step
        fun news => firm.told_of_news timely.seen_le news
      rw [turned, posted, turn.now, turn.channel, turn.step.id_eq]
      rw [turn.step.id_eq] at course
      exact course
    · rw [turned, posted, List.append_nil]
      have step := State.step_of_move? made
      exact (courses w unchanged).frame (step.stays_told firmAfter) unchanged time

end Run

end Volley
