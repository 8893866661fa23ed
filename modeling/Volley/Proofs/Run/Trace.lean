import Volley.Proofs.Run.Step
import Volley.Run.Schedule

namespace Volley.Run

variable {setup : Setup} {s t last : State} {move : Move} {moves : List Move} {i count : Nat}

theorem User.Step.id_eq {u v : User} {sent : Option Push} {outcome : Option Outcome}
    (step : u.Step setup s sent outcome v) : v.id = u.id := by
  cases step <;> rfl

namespace State

structure Numbered (s : State) (count : Nat) : Prop where
  length_users : s.users.length = count
  id_eq : ∀ {i : Nat} {u : User}, s.users[i]? = some u → u.id = i

theorem initial_isInitial (clock : Clock) (channel : Channel) (metrics : Metrics)
    (words : Nat → WordSource) (count : Nat) :
    (initial clock channel metrics words count).IsInitial words count :=
  ⟨rfl, rfl, rfl⟩

theorem IsInitial.forall_users {words : Nat → WordSource} {property : User → Prop}
    (initial : s.IsInitial words count) (fresh : ∀ id, property { id, words := words id }) :
    ∀ u ∈ s.users, property u := by
  intro u member
  rw [initial.users] at member
  obtain ⟨id, -, rfl⟩ := List.mem_map.1 member
  exact fresh id

theorem IsInitial.numbered {words : Nat → WordSource} (initial : s.IsInitial words count) :
    s.Numbered count := by
  constructor
  · simp [initial.users]
  · intro i u user
    simp only [initial.users, List.getElem?_map, Option.map_eq_some_iff] at user
    obtain ⟨id, place, rfl⟩ := user
    obtain ⟨bound, same⟩ := List.getElem?_eq_some_iff.1 place
    rw [← same, List.getElem_range]

theorem Numbered.map_id (numbered : s.Numbered count) : s.users.map (·.id) = List.range count := by
  apply List.ext_getElem (by simp [numbered.length_users])
  intro i bound _
  rw [List.getElem_map, List.getElem_range]
  exact numbered.id_eq (List.getElem?_eq_getElem _)

theorem Numbered.mem_iff {u : User} (numbered : s.Numbered count) :
    u ∈ s.users ↔ s.users[u.id]? = some u := by
  constructor
  · intro member
    obtain ⟨i, user⟩ := List.mem_iff_getElem?.1 member
    rw [numbered.id_eq user, user]
  · exact fun user => List.mem_iff_getElem?.2 ⟨u.id, user⟩

theorem Numbered.id_lt {u : User} (numbered : s.Numbered count) (member : u ∈ s.users) :
    u.id < count := by
  obtain ⟨bound, -⟩ := List.getElem?_eq_some_iff.1 (numbered.mem_iff.1 member)
  rw [← numbered.length_users]
  exact bound

theorem Numbered.eq_of_id {u v : User} (numbered : s.Numbered count) (first : u ∈ s.users)
    (second : v ∈ s.users) (same : u.id = v.id) : u = v := by
  have user := numbered.mem_iff.1 first
  rw [same, numbered.mem_iff.1 second] at user
  exact (Option.some.inj user).symm

theorem Turn.getElem?_users {u v : User} {sent : Option Push} {outcome : Option Outcome}
    (turn : Turn setup s i u sent outcome v t) (numbered : s.Numbered count) (j : Nat) :
    t.users[j]? = if j = i then some v else s.users[j]? := by
  obtain ⟨bound, -⟩ := List.getElem?_eq_some_iff.1 turn.user
  rw [turn.users, numbered.id_eq turn.user, List.getElem?_set]
  by_cases same : j = i
  · simp [same, bound]
  · simp [same, Ne.symm same]

theorem Numbered.step (numbered : s.Numbered count) (step : Step setup s move t) :
    t.Numbered count := by
  cases step with
  | turn mover returned turn =>
      constructor
      · rw [turn.users, List.length_set, numbered.length_users]
      · intro j w user
        rw [turn.getElem?_users numbered] at user
        split at user
        · cases user
          rename_i own
          rw [turn.step.id_eq, numbered.id_eq turn.user, own]
        · exact numbered.id_eq user
  | signal signal => exact ⟨numbered.length_users, numbered.id_eq⟩
  | advance later goesOn quiet => exact ⟨numbered.length_users, numbered.id_eq⟩

theorem Turn.pushesOf {u v : User} {sent : Option Push} {outcome : Option Outcome}
    (turn : Turn setup s i u sent outcome v t) (numbered : s.Numbered count) (j : Nat) :
    t.pushesOf j = s.pushesOf j ++ if j = i then sent.toList else [] := by
  rw [State.pushesOf, turn.posts, numbered.id_eq turn.user]
  cases sent with
  | none => simp [State.pushesOf]
  | some push =>
      by_cases same : j = i
      · simp [State.pushesOf, same]
      · simp [State.pushesOf, same, Ne.symm same]

theorem Step.user_cases {w : User} (numbered : s.Numbered count) (step : Step setup s move t)
    (member : w ∈ t.users) :
    (w ∈ s.users ∧ (∀ r ∈ s.returned? setup move, r.user ≠ w.id) ∧
      t.pushesOf w.id = s.pushesOf w.id) ∨
    ∃ u sent outcome, Turn setup s w.id u sent outcome w t ∧
      s.returned? setup move = outcome.map (⟨w.id, s.now, ·⟩) := by
  have later := numbered.step step
  cases step with
  | @turn _ i u v sent outcome t mover returned turn =>
      have posted := turn.pushesOf numbered w.id
      have user := (turn.getElem?_users numbered w.id).symm.trans (later.mem_iff.1 member)
      by_cases same : w.id = i
      · rw [if_pos same] at user
        cases user
        subst same
        exact .inr ⟨u, sent, outcome, turn, returned⟩
      · rw [if_neg same] at user
        rw [if_neg same, List.append_nil] at posted
        refine .inl ⟨List.mem_of_getElem? user, ?_, posted⟩
        rw [returned]
        rintro r own
        obtain ⟨_, -, rfl⟩ := Option.map_eq_some_iff.1 own
        exact Ne.symm same
  | signal signal => exact .inl ⟨member, by simp [returned?], rfl⟩
  | advance later goesOn quiet => exact .inl ⟨member, by simp [returned?], rfl⟩

theorem throughout_start {property : State → Prop}
    (always : s.Throughout setup moves property) : property s :=
  always [] List.nil_prefix s rfl

theorem throughout_rest {property : State → Prop} {rest : List Move}
    (always : s.Throughout setup (move :: rest) property) (made : s.move? setup move = some t) :
    t.Throughout setup rest property := by
  intro passed before u reached
  apply always (move :: passed) (List.prefix_cons_inj move |>.2 before) u
  rw [after?, made]
  exact reached

theorem throughout_of_step (property : State → Prop)
    (kept : ∀ {s t : State} {move : Move}, move ∈ moves → property s → Step setup s move t →
      property t)
    (holds : property s) : s.Throughout setup moves property := by
  intro passed before last reached
  have kept : ∀ {s t : State} {move : Move}, move ∈ passed → property s → Step setup s move t →
      property t := fun member => kept (before.subset member)
  clear before
  induction passed generalizing s with
  | nil =>
      cases reached
      exact holds
  | cons move rest ih =>
      simp only [State.after?, Option.bind_eq_some_iff] at reached
      obtain ⟨t, made, reached⟩ := reached
      exact ih (kept List.mem_cons_self holds (step_of_move? made)) reached
        fun member => kept (List.mem_cons_of_mem move member)

theorem Numbered.after? (numbered : s.Numbered count) (run : s.after? setup moves = some last) :
    last.Numbered count :=
  throughout_of_step (fun s => s.Numbered count) (fun _ numbered step => numbered.step step)
    numbered moves (List.prefix_refl moves) last run

theorem after?_append (before : List Move) :
    s.after? setup (before ++ moves) =
      (s.after? setup before).bind fun t => t.after? setup moves := by
  induction before generalizing s with
  | nil => rfl
  | cons move rest ih =>
      simp only [List.cons_append, after?, Option.bind_assoc]
      congr 1
      funext t
      exact ih

/-- What every move keeps, of the state and the outcomes returned so far, holds at the end. The
moves may rely on what holds throughout. -/
theorem after?_induction (assumed : State → Prop) (property : State → List Returned → Prop)
    (kept : ∀ {s t : State} {move : Move} {history : List Returned}, s.Numbered count →
      assumed s → assumed t → property s history → Step setup s move t →
      property t (history ++ (s.returned? setup move).toList))
    (history : List Returned) (numbered : s.Numbered count)
    (always : s.Throughout setup moves assumed) (holds : property s history)
    (run : s.after? setup moves = some last) :
    last.Numbered count ∧ property last (history ++ s.returns setup moves) := by
  induction moves generalizing s history with
  | nil =>
      cases run
      simpa [returns] using ⟨numbered, holds⟩
  | cons move rest ih =>
      simp only [after?, Option.bind_eq_some_iff] at run
      obtain ⟨t, made, run⟩ := run
      have step := step_of_move? made
      have later := throughout_rest always made
      have next := kept numbered (throughout_start always) (throughout_start later) holds step
      simpa [returns, made, List.append_assoc] using ih _ (numbered.step step) later next run

theorem after?_invariant (property : State → Prop)
    (kept : ∀ {s t : State} {move : Move}, s.Numbered count → property s → Step setup s move t →
      property t)
    (numbered : s.Numbered count) (holds : property s) (run : s.after? setup moves = some last) :
    property last :=
  (throughout_of_step (fun s => s.Numbered count ∧ property s)
    (fun _ before step => ⟨before.1.step step, kept before.1 before.2 step⟩) ⟨numbered, holds⟩
    moves (List.prefix_refl moves) last run).2

theorem after?_users (assumed : State → Prop) (property : User → Prop)
    (kept : ∀ {s : State} {u v : User} {sent : Option Push} {outcome : Option Outcome}, assumed s →
      property u → u.Step setup s sent outcome v → property v)
    (numbered : s.Numbered count) (always : s.Throughout setup moves assumed)
    (holds : ∀ u ∈ s.users, property u) (run : s.after? setup moves = some last) :
    ∀ u ∈ last.users, property u := by
  refine (after?_induction assumed (fun s _ => ∀ u ∈ s.users, property u) ?_ [] numbered always
    holds run).2
  intro s t move history numbered before _ holds step v member
  rcases step.user_cases numbered member with ⟨unchanged, -⟩ | ⟨u, sent, outcome, turn, -⟩
  · exact holds v unchanged
  · exact kept before (holds u (List.mem_of_getElem? turn.user)) turn.step

theorem throughout_users {words : Nat → WordSource} (property : User → Prop)
    (initial : s.IsInitial words count) (fresh : ∀ id, property { id, words := words id })
    (kept : ∀ {s : State} {u v : User} {sent : Option Push} {outcome : Option Outcome},
      property u → u.Step setup s sent outcome v → property v) :
    s.Throughout setup moves fun s => ∀ u ∈ s.users, property u :=
  fun _ _ _ reached => after?_users (fun _ => True) property (fun _ => kept) initial.numbered
    (fun _ _ _ _ => trivial) (initial.forall_users fresh) reached

theorem Step.value_eq {value : Bool} (step : Step setup s move t)
    (quiet : move ≠ .signal (.send (!value))) (before : s.channel.value = value) :
    t.channel.value = value := by
  cases step with
  | turn mover returned turn => rw [turn.channel, before]
  | signal signal =>
      cases signal with
      | send sent =>
          have same : sent = value := by
            cases sent <;> cases value <;> simp_all
          dsimp only [Channel.apply]
          split
          · exact same
          · exact before
      | close => exact before
  | advance later goesOn quiet => exact before

theorem throughout_value {value : Bool} (quiet : ∀ move ∈ moves, move ≠ .signal (.send (!value)))
    (before : s.channel.value = value) :
    s.Throughout setup moves fun s => s.channel.value = value :=
  throughout_of_step _ (fun member before step => step.value_eq (quiet _ member) before) before

theorem run_after? {rounds : Nat} {timeline : Timeline}
    (run : s.run setup rounds timeline = some last) :
    ∃ moves, s.after? setup moves = some last ∧ last.isOver = true := by
  induction rounds generalizing s timeline with
  | zero => cases run
  | succ rounds ih =>
      unfold State.run at run
      split at run
      · rename_i allOver
        cases run
        exact ⟨[], rfl, allOver⟩
      · simp only [Option.bind_eq_bind, Option.bind_eq_some_iff, Prod.exists] at run
        obtain ⟨move, later, -, t, made, run⟩ := run
        obtain ⟨moves, reached, allOver⟩ := ih run
        exact ⟨move :: moves, by simp [State.after?, made, reached], allOver⟩

end State

/-- The report of a run that is carried out is that of a state in which all users have ended, at the
end of some moves. The run leaves the metrics of that state. -/
theorem perform_finished {seed : Option UInt64} {timeline : Timeline} {report : Report}
    (performed : perform setup seed timeline s = .finished report t) :
    ∃ moves last, (s.log [Report.startNote s.users.length setup.policy seed]).after? setup moves =
      some last ∧ last.isOver = true ∧ report = Report.ofState last ∧
        t.metrics = last.metrics := by
  unfold perform at performed
  split at performed
  · cases performed
  · dsimp only at performed
    split at performed
    · rename_i last run
      cases performed
      obtain ⟨moves, reached, allOver⟩ := State.run_after? run
      exact ⟨moves, last, reached, allOver, rfl, rfl⟩
    · cases performed

end Volley.Run
