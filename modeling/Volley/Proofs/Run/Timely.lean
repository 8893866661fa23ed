import Mathlib.Data.List.Induction
import Volley.Proofs.Run.Trace

/-!
A user in a call or a pause when it is told to stop has not noticed yet, so its pause is cut short.
-/

namespace Volley.Run

variable {setup : Setup} {s t start last : State} {move : Move} {moves : List Move} {count : Nat}
  {words : Nat → WordSource}

def Phase.isWaiting : Phase → Bool
  | .calling .. => true
  | .thinking _ => true
  | _ => false

def Phase.ends? : Phase → Option Nat
  | .calling _ _ ends => some ends
  | .thinking ends => some ends
  | _ => none

theorem Setup.resume_ne_calling (setup : Setup) (now : Nat) (push : Push) (reply : Reply)
    (ends : Nat) : setup.resume now ≠ .calling push reply ends :=
  setup.resume_induction now nofun nofun nofun

theorem length_le (d : Delivery) (reply : Reply) : d.length reply ≤ d.limit := by
  unfold Delivery.length
  split
  · rename_i inTime
    simp only [Delivery.inTime, Bool.and_eq_true, decide_eq_true_eq] at inTime
    exact inTime.2
  · exact Nat.le_refl _

/-- A user has noticed no setting of the channel that is still to come, it has news when it waits
and is told to stop, and its call ends neither in the past nor beyond the limit. -/
structure User.Timely (setup : Setup) (now : Nat) (c : Channel) (u : User) : Prop where
  seen_le : u.seen ≤ c.version
  hasNews : c.value = true → u.phase.isWaiting = true → c.hasNews u.seen = true
  le_ends : ∀ push reply ends, u.phase = .calling push reply ends → now ≤ ends
  ends_le : ∀ push reply ends, u.phase = .calling push reply ends →
    ends ≤ now + setup.delivery.limit

theorem State.Step.now_le (step : s.Step setup move t) : s.now ≤ t.now := by
  cases step with
  | turn mover returned turn => exact Nat.le_of_eq turn.now.symm
  | signal signal => exact Nat.le_refl _
  | advance later goesOn quiet => exact Nat.le_of_lt later

theorem User.Step.began {u v : User} {sent : Option Push} {outcome : Option Outcome}
    (step : u.Step setup s sent outcome v) {push : Push} {reply : Reply} {ends : Nat}
    (calling : v.phase = .calling push reply ends) :
    u.phase = .ready ∧ ends = s.now + setup.delivery.length reply := by
  cases step with
  | call ready untold unfinished composed =>
      cases calling
      exact ⟨ready, rfl⟩
  | goOn before due settled => exact absurd calling (setup.resume_ne_calling s.now _ _ _)
  | _ => cases calling

theorem User.Timely.step {u v : User} {sent : Option Push} {outcome : Option Outcome}
    (timely : u.Timely setup s.now s.channel) (step : u.Step setup s sent outcome v) :
    v.Timely setup s.now s.channel := by
  obtain ⟨seen_le, hasNews, -, -⟩ := timely
  cases step with
  | call ready untold unfinished composed =>
      refine ⟨seen_le, fun told => ?_, ?_, ?_⟩
      · simp [untold] at told
      · rintro _ _ _ ⟨⟩
        exact Nat.le_add_right _ _
      · rintro _ _ _ ⟨⟩
        exact Nat.add_le_add_left (length_le _ _) _
  | goOn calling due settled =>
      -- What was news in the call still is in the pause.
      refine ⟨seen_le, fun told _ => hasNews told (by rw [calling]; rfl), ?_, ?_⟩
      · exact fun _ _ _ resumed => absurd resumed (setup.resume_ne_calling s.now _ _ _)
      · exact fun _ _ _ resumed => absurd resumed (setup.resume_ne_calling s.now _ _ _)
  | interrupt thinking news => exact ⟨Nat.le_refl _, nofun, nofun, nofun⟩
  | _ => exact ⟨seen_le, nofun, nofun, nofun⟩

theorem User.Timely.signal {u : User} {now : Nat} {c : Channel} (timely : u.Timely setup now c)
    (signal : Signal) : u.Timely setup now (c.apply signal) := by
  obtain ⟨seen_le, hasNews, le_ends, ends_le⟩ := timely
  cases signal with
  | send value =>
      dsimp only [Channel.apply]
      split
      · -- Nobody has noticed the new setting, as nobody has noticed more than there were.
        refine ⟨Nat.le_succ_of_le seen_le, fun _ _ => ?_, le_ends, ends_le⟩
        simp only [Channel.hasNews, decide_eq_true_eq]
        omega
      · exact ⟨seen_le, hasNews, le_ends, ends_le⟩
  | close => exact ⟨seen_le, hasNews, le_ends, ends_le⟩

theorem State.le_due {u : User} {time due : Nat} (quiet : s.isQuietBefore time = true)
    (member : u ∈ s.users) (waits : u.due? s.now s.channel = some due) : time ≤ due := by
  have quiet := List.all_eq_true.1 quiet u member
  simpa [waits] using quiet

theorem State.exists_ends {u : User} {time : Nat} (quiet : s.isQuietBefore time = true)
    (later : s.now < time) (member : u ∈ s.users) (active : u.phase.isOver = false) :
    ∃ ends, u.phase.ends? = some ends ∧ time ≤ ends := by
  have waits : ∀ due, u.due? s.now s.channel = some due → time ≤ due :=
    fun due waits => State.le_due quiet member waits
  cases phase : u.phase with
  | fresh =>
      have early := waits s.now (by rw [User.due?, phase])
      omega
  | ready =>
      have early := waits s.now (by rw [User.due?, phase])
      omega
  | calling push reply ends => exact ⟨ends, rfl, waits ends (by rw [User.due?, phase])⟩
  | thinking ends =>
      by_cases news : s.channel.hasNews u.seen = true
      · have early := waits s.now (by simp [User.due?, phase, news])
        omega
      · exact ⟨ends, rfl, waits ends (by simp [User.due?, phase, news])⟩
  | done => simp [phase, Phase.isOver] at active
  | crashed message => simp [phase, Phase.isOver] at active

theorem timely_of_step (timely : ∀ u ∈ s.users, u.Timely setup s.now s.channel)
    (step : s.Step setup move t) :
    ∀ u ∈ t.users, u.Timely setup t.now t.channel := by
  intro w member
  cases step with
  | turn mover returned turn =>
      rw [turn.now, turn.channel]
      rw [turn.users] at member
      rcases List.mem_or_eq_of_mem_set member with before | rfl
      · exact timely w before
      · exact (timely _ (List.mem_of_getElem? turn.user)).step turn.step
  | signal signal => exact (timely w member).signal signal
  | advance later goesOn quiet =>
      obtain ⟨seen_le, hasNews, le_ends, ends_le⟩ := timely w member
      refine ⟨seen_le, hasNews, fun push reply ends calling => ?_,
        fun push reply ends calling => ?_⟩
      · exact State.le_due quiet member (by rw [User.due?, calling])
      · exact Nat.le_trans (ends_le push reply ends calling)
          (Nat.add_le_add_right (Nat.le_of_lt later) _)

theorem timely_of_run (initial : start.IsInitial words count)
    (run : start.after? setup moves = some last) :
    ∀ u ∈ last.users, u.Timely setup last.now last.channel :=
  State.after?_invariant (fun s => ∀ u ∈ s.users, u.Timely setup s.now s.channel)
    (fun _ timely step => timely_of_step timely step) initial.numbered
    (initial.forall_users fun _ => ⟨Nat.zero_le _, nofun, nofun, nofun⟩) run

theorem call_began (initial : start.IsInitial words count)
    (run : start.after? setup moves = some last) {u : User} (member : u ∈ last.users)
    {push : Push} {reply : Reply} {ends : Nat} (calling : u.phase = .calling push reply ends) :
    ∃ passed begun, passed <+: moves ∧ start.after? setup passed = some begun ∧
      begun.now ≤ last.now ∧ begun.users[u.id]?.map (·.phase) = some .ready ∧
      ends = begun.now + setup.delivery.length reply := by
  induction moves using List.reverseRecOn generalizing last u with
  | nil =>
      cases run
      have fresh : ∀ u ∈ start.users, u.phase = .fresh := initial.forall_users fun _ => rfl
      cases (fresh u member).symm.trans calling
  | append_singleton moves move ih =>
      rw [State.after?_append, Option.bind_eq_some_iff] at run
      obtain ⟨before, run, made⟩ := run
      simp only [State.after?, Option.bind_eq_some_iff, Option.some.injEq, exists_eq_right] at made
      have step := State.step_of_move? made
      have numbered := initial.numbered.after? run
      have later := step.now_le
      rcases step.user_cases numbered member with ⟨unchanged, -⟩ | ⟨v, sent, outcome, turn, -⟩
      · obtain ⟨passed, begun, earlier, reached, past, ready, length⟩ := ih run unchanged calling
        exact ⟨passed, begun, earlier.trans (List.prefix_append _ _), reached,
          Nat.le_trans past later, ready, length⟩
      · refine ⟨moves, before, List.prefix_append _ _, run, later, ?_, ?_⟩
        · rw [turn.user]
          exact congrArg some (turn.step.began calling).1
        · exact (turn.step.began calling).2

end Volley.Run
