import Volley.Proofs.Run.Pace
import Volley.Proofs.Run.Shutdown

/-!
A user that is told to stop still ends the call that it is in. The report does not look at the users
but at the channel.
-/

namespace Volley.Run

variable {setup : Setup} {s start told last : State} {moves earlier later : List Move}
  {ended : List User} {count limit now : Nat} {words : Nat → WordSource}

def User.begun (u : User) : Nat := u.iterations + u.phase.inFlight

/-- Along the moves the channel does not go back from `true`. -/
def State.Latched (setup : Setup) (start : State) (moves : List Move) : Prop :=
  ∀ earlier later told, earlier ++ later = moves → start.after? setup earlier = some told →
    told.channel.value = true → told.Throughout setup later fun s => s.channel.value = true

def State.Told (setup : Setup) (start : State) (moves : List Move) (told : State) : Prop :=
  ∃ earlier, earlier <+: moves ∧ start.after? setup earlier = some told ∧
    told.channel.value = true

theorem State.latched_of_firm (firm : ∀ move ∈ moves, move ≠ .signal (.send false)) :
    State.Latched setup start moves := by
  rintro earlier later told rfl - value
  exact State.throughout_value (fun move member => firm move (List.mem_append_right _ member)) value

theorem State.Told.rest (stop : State.Told setup start moves told)
    (latched : State.Latched setup start moves) (run : start.after? setup moves = some last) :
    ∃ earlier later, start.after? setup earlier = some told ∧
      told.after? setup later = some last ∧
      told.Throughout setup later fun s => s.channel.value = true := by
  obtain ⟨earlier, ⟨later, split⟩, before, value⟩ := stop
  have stays := latched earlier later told split before value
  rw [← split, State.after?_append, before, Option.bind_some] at run
  exact ⟨earlier, later, before, run, stays⟩

theorem State.Told.value_eq (stop : State.Told setup start moves told)
    (latched : State.Latched setup start moves) (run : start.after? setup moves = some last) :
    last.channel.value = true := by
  obtain ⟨-, later, -, after, stays⟩ := stop.rest latched run
  exact stays later (List.prefix_refl later) last after

theorem User.Fate.iterations_eq {u v : User} {since : Nat} (fate : u.Fate setup since now v)
    (done : v.phase = .done) : v.iterations = u.begun := by
  cases fate with
  | ended ended same =>
      subst same
      simp [begun, done, Phase.inFlight]
  | stopping idle iterations tally leaving =>
      have none : u.phase.inFlight = 0 := by
        cases phase : u.phase <;> simp_all [Phase.isIdle, Phase.inFlight]
      rw [begun, none, iterations, Nat.add_zero]
  | calling calling same early =>
      subst same
      cases calling.symm.trans done
  | crashed calling late settled crashed iterations tally => cases crashed.symm.trans done
  | returned calling late settled iterations tally leaving =>
      rw [begun, calling, iterations, Phase.inFlight]

theorem iterations_eq_begun (initial : start.IsInitial words count)
    (latched : State.Latched setup start moves) (stop : State.Told setup start moves told)
    (run : start.after? setup moves = some last) (done : ∀ u ∈ last.users, u.phase = .done) :
    (∀ u ∈ told.users, ∃ v ∈ last.users, v.id = u.id ∧ v.iterations = u.begun) ∧
      ∀ v ∈ last.users, ∃ u ∈ told.users, v.iterations = u.begun := by
  obtain ⟨earlier, later, before, after, stays⟩ := stop.rest latched run
  constructor
  · intro u member
    obtain ⟨v, user, fate⟩ := fate_of_run initial before stays after
      ((initial.numbered.after? before).mem_iff.1 member)
    have listed := List.mem_of_getElem? user
    have id := (initial.numbered.after? run).id_eq user
    exact ⟨v, listed, id, fate.iterations_eq (done v listed)⟩
  · intro v member
    obtain ⟨u, listed, -, fate⟩ := (stopping_of_run initial before stays after).fates v member
    exact ⟨u, listed, fate.iterations_eq (done v member)⟩

theorem exists_lt_iff_sum_lt {bound : Nat} {ns : List Nat} (below : ∀ n ∈ ns, n ≤ bound) :
    (∃ n ∈ ns, n < bound) ↔ ns.sum < ns.length * bound := by
  induction ns with
  | nil => simp
  | cons n rest ih =>
      have first := below n List.mem_cons_self
      have others : ∀ m ∈ rest, m ≤ bound := fun m member => below m (List.mem_cons_of_mem n member)
      have sum := List.sum_le_card_nsmul rest bound others
      rw [smul_eq_mul] at sum
      rw [List.exists_mem_cons_iff, ih others, List.sum_cons, List.length_cons, Nat.succ_mul]
      omega

theorem mem_users_ofEnded (initial : start.IsInitial words count)
    (run : start.after? setup moves = some last) (order : ended.Perm last.users)
    (done : ∀ u ∈ last.users, u.phase = .done) {r : UserReport} :
    r ∈ (Report.ofEnded last ended).users ↔ ∃ u ∈ last.users, r = .ofUser u := by
  rw [Report.users_ofEnded (initial.numbered.after? run) order, List.mem_map]
  constructor
  · rintro ⟨u, survived, rfl⟩
    exact ⟨u, (Report.mem_survivors.1 survived).1, rfl⟩
  · rintro ⟨u, member, rfl⟩
    exact ⟨u, Report.mem_survivors.2 ⟨member, by rw [done u member]; rfl⟩, rfl⟩

theorem early_iff_total_lt (initial : start.IsInitial words count)
    (policy : setup.policy = .iterations limit) (run : start.after? setup moves = some last)
    (order : ended.Perm last.users) (done : ∀ u ∈ last.users, u.phase = .done) :
    (∃ r ∈ (Report.ofEnded last ended).users, r.iterations < limit) ↔
      (Report.ofEnded last ended).tally.total < count * limit := by
  have accounts := balanced initial run order
  have nobody : (Report.ofEnded last ended).crashed = 0 := by
    rw [Report.crashed_ofEnded order, List.countP_eq_zero]
    intro u member
    simp [done u member, Phase.isCrashed]
  have all : (Report.ofEnded last ended).users.length = count := by
    have complete := accounts.complete
    rwa [nobody, Nat.add_zero] at complete
  have below : ∀ n ∈ (Report.ofEnded last ended).users.map (·.iterations), n ≤ limit := by
    intro n listed
    obtain ⟨r, reported, rfl⟩ := List.mem_map.1 listed
    obtain ⟨u, member, rfl⟩ := (mem_users_ofEnded initial run order done).1 reported
    exact Nat.le_trans (Nat.le_add_right _ _) (iterations_le initial policy run u member)
  have short := exists_lt_iff_sum_lt below
  rw [List.length_map, all, ← accounts.total] at short
  simpa using short

theorem value_of_early (initial : start.IsInitial words count)
    (policy : setup.policy = .iterations limit) (latched : State.Latched setup start moves)
    (run : start.after? setup moves = some last) (done : ∀ u ∈ last.users, u.phase = .done)
    {u : User} (member : u ∈ last.users) (short : u.iterations < limit) :
    last.channel.value = true := by
  by_contra untold
  have never : start.Throughout setup moves fun s => s.channel.value = false := by
    intro earlier before s reached
    by_contra value
    have stop : State.Told setup start moves s := ⟨earlier, before, reached, by simpa using value⟩
    exact untold (stop.value_eq latched run)
  exact absurd (le_iterations initial policy never run u member (done u member))
    (Nat.not_le_of_lt short)

/-- A run ends early exactly if it is told to stop before all users have begun their last
iterations. The report calls it cancelled if it is told to stop at all. -/
theorem cancelled_course (initial : start.IsInitial words count)
    (policy : setup.policy = .iterations limit)
    (latched : State.Latched setup start moves)
    (run : start.after? setup moves = some last) (allOver : last.isOver = true)
    (survived : ∀ u ∈ last.users, u.phase.isCrashed = false)
    (order : ended.Perm last.users) :
    let report := Report.ofEnded last ended
    let early := ∃ r ∈ report.users, r.iterations < limit
    (early ↔ report.tally.total < count * limit) ∧
    (early → report.cancelled = true) ∧
    (∀ told, State.Told setup start moves told → report.cancelled = true ∧
      (∀ u ∈ told.users, ∃ r ∈ report.users, r.id = u.id ∧ r.iterations = u.begun) ∧
      (early ↔ ∃ u ∈ told.users, u.begun < limit)) ∧
    ((report.cancelled = true ↔ early) ↔
      ∀ told, State.Told setup start moves told → ∃ u ∈ told.users, u.begun < limit) := by
  intro report early
  have done : ∀ u ∈ last.users, u.phase = .done :=
    fun u member => State.done_of_isOver allOver member (survived u member)
  have listed : ∀ {r}, r ∈ report.users ↔ ∃ u ∈ last.users, r = .ofUser u :=
    mem_users_ofEnded initial run order done
  have flagged : early → report.cancelled = true := by
    rintro ⟨r, reported, short⟩
    obtain ⟨u, member, rfl⟩ := listed.1 reported
    exact value_of_early initial policy latched run done member short
  have atStop : ∀ told, State.Told setup start moves told → report.cancelled = true ∧
      (∀ u ∈ told.users, ∃ r ∈ report.users, r.id = u.id ∧ r.iterations = u.begun) ∧
      (early ↔ ∃ u ∈ told.users, u.begun < limit) := by
    intro told stop
    obtain ⟨forward, back⟩ := iterations_eq_begun initial latched stop run done
    have forward : ∀ u ∈ told.users, ∃ r ∈ report.users, r.id = u.id ∧ r.iterations = u.begun := by
      intro u member
      obtain ⟨v, own, id, iterations⟩ := forward u member
      exact ⟨.ofUser v, listed.2 ⟨v, own, rfl⟩, id, iterations⟩
    refine ⟨stop.value_eq latched run, forward, ?_, ?_⟩
    · rintro ⟨r, reported, short⟩
      obtain ⟨v, own, rfl⟩ := listed.1 reported
      obtain ⟨u, member, iterations⟩ := back v own
      exact ⟨u, member, iterations ▸ short⟩
    · rintro ⟨u, member, short⟩
      obtain ⟨r, member, -, iterations⟩ := forward u member
      exact ⟨r, member, iterations ▸ short⟩
  refine ⟨early_iff_total_lt initial policy run order done, flagged, atStop, ?_, ?_⟩
  · rintro right told stop
    obtain ⟨cancelled, -, begun⟩ := atStop told stop
    exact begun.1 (right.1 cancelled)
  · refine fun unbegun => ⟨fun cancelled => ?_, flagged⟩
    have stop : State.Told setup start moves last := ⟨moves, List.prefix_refl moves, run, cancelled⟩
    exact (atStop last stop).2.2.2 (unbegun last stop)

def haltedMoves : List Move :=
  [.start 0, .start 1, .decide 0, .decide 1, .advance 5, .settle 0, .advance 20,
    .signal (.send true), .interrupt 0, .decide 0, .advance 100, .settle 1, .interrupt 1, .decide 1]

theorem cancelled_course_halted :
    ∃ last, pairStart.after? steadySetup haltedMoves = some last ∧ last.isOver = true ∧
      (Report.ofEnded last last.users.reverse).cancelled = true ∧
      ∃ r ∈ (Report.ofEnded last last.users.reverse).users, r.iterations < 2 := by
  have ends : (pairStart.after? steadySetup haltedMoves).any (fun s =>
      s.isOver && s.users.all (!·.phase.isCrashed)) = true := by
    decide +kernel
  obtain ⟨last, run, ended⟩ := (Option.any_eq_true _ _).1 ends
  obtain ⟨allOver, survived⟩ := Bool.and_eq_true_iff.1 ended
  have tells : (pairStart.after? steadySetup (haltedMoves.take 8)).any (fun s =>
      s.channel.value && s.users.any (·.begun < 2)) = true := by
    decide +kernel
  obtain ⟨told, before, tells⟩ := (Option.any_eq_true _ _).1 tells
  simp only [Bool.and_eq_true, List.any_eq_true, decide_eq_true_eq] at tells
  obtain ⟨value, u, member, short⟩ := tells
  obtain ⟨-, -, atStop, -⟩ := cancelled_course (State.initial_isInitial _ _ _ _ 2)
    (show steadySetup.policy = .iterations 2 from rfl) (State.latched_of_firm (by decide)) run
    allOver (by simpa using survived) last.users.reverse_perm
  obtain ⟨cancelled, -, early⟩ := atStop told ⟨_, List.take_prefix 8 haltedMoves, before, value⟩
  exact ⟨last, run, allOver, cancelled, early.2 ⟨u, member, short⟩⟩

/-- A user that is told to stop in its last call comes up to the limit, and the report calls the run
cancelled. -/
theorem complete_run_is_cancelled :
    let setup := { pairSetup with transport := fun _ => ⟨10, .answer 200 "", []⟩ }
    let moves : List Move := [.start 0, .decide 0, .advance 5, .signal (.send true), .advance 10,
      .settle 0, .decide 0]
    setup.policy = .iterations 1 ∧
    ∃ last, loneStart.after? setup moves = some last ∧ last.isOver = true ∧
      ∀ ended, ended.Perm last.users → (Report.ofEnded last ended).cancelled = true ∧
        (Report.ofEnded last ended).crashed = 0 ∧ (Report.ofEnded last ended).tally.total = 1 ∧
        ∀ r ∈ (Report.ofEnded last ended).users, r.iterations = 1 := by
  intro setup moves
  have ends : (loneStart.after? setup moves).any (fun s =>
      s.isOver && (Report.ofState s).cancelled && (Report.ofState s).crashed = 0 &&
        (Report.ofState s).tally.total = 1 &&
        (Report.ofState s).users.all (·.iterations = 1)) = true := by
    decide +kernel
  obtain ⟨last, run, ended⟩ := (Option.any_eq_true _ _).1 ends
  simp only [Bool.and_eq_true, List.all_eq_true, decide_eq_true_eq] at ended
  obtain ⟨⟨⟨⟨allOver, cancelled⟩, crashed⟩, total⟩, complete⟩ := ended
  have numbered := (State.initial_isInitial .start {} .empty (fun _ => .ofWords []) 1).numbered
  refine ⟨rfl, last, run, allOver, fun ended order => ?_⟩
  rw [Report.ofEnded_eq_ofState (numbered.after? run) order]
  exact ⟨cancelled, crashed, total, complete⟩

end Volley.Run
