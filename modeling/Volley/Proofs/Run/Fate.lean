import Volley.Proofs.Run.Timely

/-!
A user in a call when it is told to stop waits for its end; all others make their last moves at
once.
-/

namespace Volley.Run

variable {setup : Setup} {s t start told last : State} {move : Move} {earlier later : List Move}
  {count now : Nat} {words : Nat → WordSource}

def Phase.isIdle : Phase → Bool
  | .fresh => true
  | .ready => true
  | .thinking _ => true
  | _ => false

/-- The user is done, unless no time has passed since. -/
def User.Leaving (since now : Nat) (u : User) : Prop :=
  u.phase = .done ∨ u.phase.isIdle = true ∧ now = since

/-- What becomes of a user that is told to stop at the time `told`, by the time `now`. -/
inductive User.Fate (setup : Setup) (told now : Nat) (u v : User) : Prop
  | ended (ended : u.phase.isOver = true) (same : v = u)
  | stopping (idle : u.phase.isIdle = true) (iterations : v.iterations = u.iterations)
      (tally : v.tally = u.tally) (leaving : v.Leaving told now)
  | calling {push : Push} {reply : Reply} {ends : Nat}
      (calling : u.phase = .calling push reply ends) (same : v = u) (early : now ≤ ends)
  | crashed {push : Push} {reply : Reply} {ends : Nat} {message : String}
      (calling : u.phase = .calling push reply ends) (late : ends ≤ now)
      (settled : setup.delivery.settle push reply = .crash message)
      (crashed : v.phase = .crashed message) (iterations : v.iterations = u.iterations)
      (tally : v.tally = u.tally)
  | returned {push : Push} {reply : Reply} {ends : Nat} {outcome : Outcome}
      (calling : u.phase = .calling push reply ends) (late : ends ≤ now)
      (settled : setup.delivery.settle push reply = .outcome outcome)
      (iterations : v.iterations = u.iterations + 1) (tally : v.tally = u.tally.record outcome)
      (leaving : v.Leaving ends now ∨ v.phase = .crashed overflow ∧ setup.Overruns ends)

theorem User.Step.not_over {u v : User} {sent : Option Push} {outcome : Option Outcome}
    (step : u.Step setup s sent outcome v) : u.phase.isOver = false := by
  cases step <;> simp_all [Phase.isOver]

theorem User.Step.sent_eq_none {u v : User} {sent : Option Push} {outcome : Option Outcome}
    (step : u.Step setup s sent outcome v) (told : s.channel.value = true) : sent = none := by
  cases step with
  | call ready untold unfinished composed => simp [told] at untold
  | _ => rfl

theorem User.Leaving.step {u v : User} {sent : Option Push} {outcome : Option Outcome} {since : Nat}
    (leaving : u.Leaving since s.now) (told : s.channel.value = true)
    (step : u.Step setup s sent outcome v) :
    v.Leaving since s.now ∧ v.iterations = u.iterations ∧ v.tally = u.tally := by
  rcases leaving with done | ⟨idle, present⟩
  · simpa [done, Phase.isOver] using step.not_over
  · cases step with
    | start fresh => exact ⟨.inr ⟨rfl, present⟩, rfl, rfl⟩
    | stop ready told => exact ⟨.inl rfl, rfl, rfl⟩
    | finish ready untold finished => exact ⟨.inl rfl, rfl, rfl⟩
    | call ready untold unfinished composed => simp [told] at untold
    | spoil ready untold unfinished spoiled => simp [told] at untold
    | crash calling due settled => simp [calling, Phase.isIdle] at idle
    | goOn calling due settled => simp [calling, Phase.isIdle] at idle
    | wake thinking due => exact ⟨.inr ⟨rfl, present⟩, rfl, rfl⟩
    | interrupt thinking news => exact ⟨.inr ⟨rfl, present⟩, rfl, rfl⟩

theorem Setup.leaving_resume (setup : Setup) {v : User} (resumed : v.phase = setup.resume now) :
    v.Leaving now now ∨ v.phase = .crashed overflow ∧ setup.Overruns now := by
  rcases setup.resume_cases now with ⟨ready, -⟩ | ⟨ends, thinking, -⟩ | ⟨crashed, late⟩
  · exact .inl (.inr ⟨by rw [resumed, ready]; rfl, rfl⟩)
  · exact .inl (.inr ⟨by rw [resumed, thinking]; rfl, rfl⟩)
  · exact .inr ⟨resumed.trans crashed, late⟩

theorem User.Fate.step {u v w : User} {since : Nat} {sent : Option Push} {outcome : Option Outcome}
    (fate : u.Fate setup since s.now v) (told : s.channel.value = true)
    (step : v.Step setup s sent outcome w) : u.Fate setup since s.now w := by
  have goesOn := step.not_over
  cases fate with
  | ended ended same =>
      subst same
      simp [ended] at goesOn
  | stopping idle iterations tally leaving =>
      obtain ⟨leaving, sameIterations, sameTally⟩ := leaving.step told step
      exact .stopping idle (sameIterations.trans iterations) (sameTally.trans tally) leaving
  | @calling push reply ends calling same early =>
      subst same
      cases step with
      | crash before due settled =>
          cases calling.symm.trans before
          exact .crashed calling due settled rfl rfl rfl
      | goOn before due settled =>
          cases calling.symm.trans before
          -- The end of the call is neither in the past nor to come.
          have present : s.now = ends := Nat.le_antisymm early due
          refine .returned calling due settled rfl rfl ?_
          rw [← present]
          exact setup.leaving_resume rfl
      | start other => cases calling.symm.trans other
      | stop other => cases calling.symm.trans other
      | finish other => cases calling.symm.trans other
      | call other => cases calling.symm.trans other
      | spoil other => cases calling.symm.trans other
      | wake other => cases calling.symm.trans other
      | interrupt other => cases calling.symm.trans other
  | crashed calling late settled crashed iterations tally =>
      simp [crashed, Phase.isOver] at goesOn
  | returned calling late settled iterations tally leaving =>
      rcases leaving with leaving | ⟨crashed, -⟩
      · obtain ⟨leaving, sameIterations, sameTally⟩ := leaving.step told step
        exact .returned calling late settled (sameIterations.trans iterations)
          (sameTally.trans tally) (.inl leaving)
      · simp [crashed, Phase.isOver] at goesOn

theorem User.Leaving.advance {u : User} {since time : Nat} (leaving : u.Leaving since s.now)
    (timely : u.Timely setup s.now s.channel) (told : s.channel.value = true)
    (member : u ∈ s.users) (quiet : s.isQuietBefore time = true) (later : s.now < time) :
    u.phase = .done := by
  rcases leaving with done | ⟨idle, -⟩
  · exact done
  · -- Whatever it waits for, a user with news is due at once.
    have due : u.due? s.now s.channel = some s.now := by
      unfold User.due?
      cases phase : u.phase with
      | thinking ends => simp [timely.hasNews told (by rw [phase]; rfl)]
      | fresh => rfl
      | ready => rfl
      | calling push reply ends => simp [phase, Phase.isIdle] at idle
      | done => simp [phase, Phase.isIdle] at idle
      | crashed message => simp [phase, Phase.isIdle] at idle
    exact absurd (State.le_due quiet member due) (Nat.not_le_of_lt later)

theorem User.Fate.advance {u v : User} {since time : Nat} (fate : u.Fate setup since s.now v)
    (timely : v.Timely setup s.now s.channel) (told : s.channel.value = true)
    (member : v ∈ s.users) (quiet : s.isQuietBefore time = true) (later : s.now < time) :
    u.Fate setup since time v := by
  cases fate with
  | ended ended same => exact .ended ended same
  | stopping idle iterations tally leaving =>
      exact .stopping idle iterations tally
        (.inl (leaving.advance timely told member quiet later))
  | calling calling same early =>
      subst same
      exact .calling calling rfl (State.le_due quiet member (by rw [User.due?, calling]))
  | crashed calling late settled crashed iterations tally =>
      exact .crashed calling (Nat.le_trans late (Nat.le_of_lt later)) settled crashed iterations
        tally
  | returned calling late settled iterations tally leaving =>
      refine .returned calling (Nat.le_trans late (Nat.le_of_lt later)) settled iterations tally ?_
      exact leaving.imp_left fun leaving =>
        .inl (leaving.advance timely told member quiet later)

/-- Time advances for calls only that began before users were told to stop. -/
theorem User.Fate.le_ends {u v : User} {since time : Nat} (fate : u.Fate setup since s.now v)
    (timely : v.Timely setup s.now s.channel) (told : s.channel.value = true)
    (member : v ∈ s.users) (quiet : s.isQuietBefore time = true) (later : s.now < time)
    (active : v.phase.isOver = false) :
    ∃ push reply ends, u.phase = .calling push reply ends ∧ time ≤ ends := by
  cases fate with
  | ended ended same =>
      subst same
      simp [ended] at active
  | stopping idle iterations tally leaving =>
      simp [leaving.advance timely told member quiet later, Phase.isOver] at active
  | @calling push reply ends calling same early =>
      subst same
      exact ⟨push, reply, ends, calling, State.le_due quiet member (by rw [User.due?, calling])⟩
  | crashed calling late settled crashed iterations tally =>
      simp [crashed, Phase.isOver] at active
  | returned calling late settled iterations tally leaving =>
      rcases leaving with leaving | ⟨crashed, -⟩
      · simp [leaving.advance timely told member quiet later, Phase.isOver] at active
      · simp [crashed, Phase.isOver] at active

theorem User.fate_refl {u : User} (timely : u.Timely setup now s.channel) :
    u.Fate setup now now u := by
  cases phase : u.phase with
  | calling push reply ends =>
      exact .calling phase rfl (timely.le_ends push reply ends phase)
  | done => exact .ended (by rw [phase]; rfl) rfl
  | crashed message => exact .ended (by rw [phase]; rfl) rfl
  | _ =>
      have idle : u.phase.isIdle = true := by rw [phase]; rfl
      exact .stopping idle rfl rfl (.inr ⟨idle, rfl⟩)

structure Stopping (setup : Setup) (told s : State) : Prop where
  posts : s.posts = told.posts
  timely : ∀ v ∈ s.users, v.Timely setup s.now s.channel
  fates : ∀ v ∈ s.users, ∃ u ∈ told.users, u.id = v.id ∧ u.Fate setup told.now s.now v
  now_le : s.now ≤ told.now + setup.delivery.limit

theorem Stopping.step (stopping : Stopping setup told s)
    (ends_le : ∀ u ∈ told.users, ∀ push reply ends, u.phase = .calling push reply ends →
      ends ≤ told.now + setup.delivery.limit)
    (value : s.channel.value = true) (step : s.Step setup move t) : Stopping setup told t := by
  have timely := timely_of_step stopping.timely step
  obtain ⟨posts, before, fates, now_le⟩ := stopping
  cases step with
  | turn mover returned turn =>
      refine ⟨?_, timely, ?_, by rwa [turn.now]⟩
      · rw [turn.posts, turn.step.sent_eq_none value, posts]
        rfl
      · intro v member
        rw [turn.now]
        rw [turn.users] at member
        rcases List.mem_or_eq_of_mem_set member with unchanged | rfl
        · exact fates v unchanged
        · obtain ⟨u, first, same, fate⟩ := fates _ (List.mem_of_getElem? turn.user)
          exact ⟨u, first, same.trans turn.step.id_eq.symm, fate.step value turn.step⟩
  | signal signal => exact ⟨posts, timely, fates, now_le⟩
  | @advance time later goesOn quiet =>
      -- Somebody is left, and that can only be a user in a call that began before.
      obtain ⟨v, member, active⟩ : ∃ v ∈ s.users, v.phase.isOver = false := by
        simpa [State.isOver] using goesOn
      obtain ⟨u, first, -, fate⟩ := fates v member
      obtain ⟨push, reply, ends, calling, bound⟩ :=
        fate.le_ends (before v member) value member quiet later active
      refine ⟨posts, timely, fun v member => ?_,
        Nat.le_trans bound (ends_le u first push reply ends calling)⟩
      obtain ⟨u, first, same, fate⟩ := fates v member
      exact ⟨u, first, same, fate.advance (before v member) value member quiet later⟩

theorem stopping_of_run (initial : start.IsInitial words count)
    (before : start.after? setup earlier = some told)
    (stays : told.Throughout setup later fun s => s.channel.value = true)
    (after : told.after? setup later = some last) : Stopping setup told last := by
  have timely := timely_of_run initial before
  have ends_le : ∀ u ∈ told.users, ∀ push reply ends, u.phase = .calling push reply ends →
      ends ≤ told.now + setup.delivery.limit := fun u member => (timely u member).ends_le
  refine (State.after?_induction _ (fun s _ => Stopping setup told s) ?_ []
    (initial.numbered.after? before) stays ?_ after).2
  · exact fun _ value _ stopping step => stopping.step ends_le value step
  · exact ⟨rfl, timely, fun u member => ⟨u, member, rfl, User.fate_refl (timely u member)⟩,
      Nat.le_add_right _ _⟩

end Volley.Run
