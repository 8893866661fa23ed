import Volley.Proofs.Push.Series
import Volley.Proofs.Run.Accounting

namespace Volley.Run

variable {setup : Setup} {s t start last : State} {move : Move} {moves : List Move} {count : Nat}
  {words : Nat → WordSource} {allowed : Int64 → Prop}

theorem User.Step.composes {u v : User} {sent : Option Push} {outcome : Option Outcome}
    (step : u.Step setup s sent outcome v) :
    (sent = none ∧ v.words = u.words) ∨
    ∃ push, sent = some push ∧ setup.delivery.recipe.compose
      (s.clock.read (setup.daytime s.now)).1 u.words = some (.ok push, v.words) := by
  cases step with
  | call ready untold unfinished composed => exact .inr ⟨_, rfl, composed⟩
  | _ => exact .inl ⟨rfl, rfl⟩

def User.Composed (recipe : Recipe) (words : Nat → WordSource) (allowed : Int64 → Prop)
    (s : State) (u : User) : Prop :=
  ∃ times, (∀ now ∈ times, allowed now) ∧
    recipe.series times (words u.id) = some (.ok (s.pushesOf u.id), u.words)

theorem User.Composed.step {u v : User} {sent : Option Push} {outcome : Option Outcome}
    (composed : u.Composed setup.delivery.recipe words allowed s)
    (step : u.Step setup s sent outcome v)
    (now : allowed (s.clock.read (setup.daytime s.now)).1)
    (posted : t.pushesOf u.id = s.pushesOf u.id ++ sent.toList) :
    v.Composed setup.delivery.recipe words allowed t := by
  obtain ⟨times, allowed, series⟩ := composed
  rw [User.Composed, step.id_eq, posted]
  rcases step.composes with ⟨rfl, kept⟩ | ⟨push, rfl, next⟩
  · exact ⟨times, allowed, by simpa [kept] using series⟩
  · refine ⟨times ++ [_], ?_, Recipe.series_concat series next⟩
    simp only [List.mem_append, List.mem_singleton]
    rintro time (before | rfl)
    · exact allowed time before
    · exact now

theorem composed_of_run (allowed : Int64 → Prop) (initial : start.IsInitial words count)
    (always : start.Throughout setup moves
      fun s => allowed (s.clock.read (setup.daytime s.now)).1)
    (run : start.after? setup moves = some last) :
    ∀ u ∈ last.users, u.Composed setup.delivery.recipe words allowed last := by
  refine (State.after?_induction _ (fun s _ =>
    ∀ u ∈ s.users, u.Composed setup.delivery.recipe words allowed s) ?_ [] initial.numbered always
    (initial.forall_users fun id => ⟨[], by simp, ?_⟩) run).2
  · intro s t move _ numbered now _ composed step w member
    rcases step.user_cases numbered member with
      ⟨unchanged, -, posted⟩ | ⟨u, sent, outcome, turn, -⟩
    · obtain ⟨times, allowed, series⟩ := composed w unchanged
      exact ⟨times, allowed, by rwa [posted]⟩
    · have posted := turn.pushesOf numbered w.id
      rw [if_pos rfl, turn.step.id_eq] at posted
      exact (composed u (List.mem_of_getElem? turn.user)).step turn.step now posted
  · exact Recipe.series_nil.2 ⟨by simp [State.pushesOf, initial.posts], rfl⟩

theorem pushesOf_eq_nil (initial : start.IsInitial words count)
    (run : start.after? setup moves = some last) {user : Nat} (unknown : ¬ user < count) :
    last.pushesOf user = [] := by
  simp only [State.pushesOf, List.reverse_eq_nil_iff, List.map_eq_nil_iff, List.filter_eq_nil_iff,
    decide_eq_true_eq]
  rintro p posted rfl
  exact unknown (user_lt_of_post initial run p posted)

theorem series_of_run (allowed : Int64 → Prop) (initial : start.IsInitial words count)
    (always : start.Throughout setup moves
      fun s => allowed (s.clock.read (setup.daytime s.now)).1)
    (run : start.after? setup moves = some last) (user : Nat) :
    ∃ times rest, (∀ now ∈ times, allowed now) ∧
      setup.delivery.recipe.series times (words user) = some (.ok (last.pushesOf user), rest) := by
  have numbered := initial.numbered.after? run
  by_cases bound : user < last.users.length
  · have member := List.getElem_mem bound
    have same := numbered.id_eq (List.getElem?_eq_getElem bound)
    obtain ⟨times, allowed, series⟩ := composed_of_run allowed initial always run _ member
    rw [same] at series
    exact ⟨times, _, allowed, series⟩
  · rw [numbered.length_users] at bound
    exact ⟨[], words user, by simp, Recipe.series_nil.2 ⟨pushesOf_eq_nil initial run bound, rfl⟩⟩

theorem posts_perm {β : Type} [DecidableEq β] {view : Push → β} {first second : State}
    (same : ∀ user, (first.pushesOf user).map view = (second.pushesOf user).map view) :
    (first.posts.map (view ·.push)).Perm (second.posts.map (view ·.push)) := by
  -- Taken together with its sender, each push occurs as often as that sender sent it.
  have counts : ∀ (s : State) (user : Nat) (seen : β),
      (s.posts.map fun p => (p.user, view p.push)).count (user, seen) =
        ((s.pushesOf user).map view).count seen := by
    intro s user seen
    rw [State.pushesOf, List.map_reverse, List.count_reverse, List.count_eq_countP,
      List.count_eq_countP, List.countP_map, List.map_map, List.countP_map, List.countP_filter]
    refine List.countP_congr fun p _ => ?_
    simp [Prod.ext_iff, and_comm]
  have pairs : (first.posts.map fun p => (p.user, view p.push)).Perm
      (second.posts.map fun p => (p.user, view p.push)) := by
    rw [List.perm_iff_count]
    rintro ⟨user, seen⟩
    rw [counts, counts, same]
  simpa [Function.comp_def] using pairs.map Prod.snd

theorem throughout_fixed {seconds : Int64} (fixed : start.clock = .fixed seconds) :
    start.Throughout setup moves fun s => s.clock = .fixed seconds := by
  refine State.throughout_of_step _ ?_ fixed
  intro s t move _ fixed step
  cases step with
  | @turn _ i u v sent outcome t mover returned turn =>
      rcases turn.clock with ⟨-, kept⟩ | read
      · rw [kept, fixed]
      · rw [read, fixed]
        rfl
  | signal signal => exact fixed
  | advance later goesOn quiet => exact fixed

structure SeededRun (recipe : Recipe) (seed : UInt64) where
  setup : Setup
  entropy : Nat → UInt64
  count : Nat
  start : State
  moves : List Move
  last : State
  recipe_eq : setup.delivery.recipe = recipe
  initial : start.IsInitial (wordsOf (some seed) entropy) count
  run : start.after? setup moves = some last

namespace SeededRun

variable {recipe : Recipe} {seed : UInt64}

structure Completes (r : SeededRun recipe seed) (limit : Nat) : Prop where
  policy : r.setup.policy = .iterations limit
  allOver : r.last.isOver = true
  uncrashed : ∀ u ∈ r.last.users, u.phase.isCrashed = false
  untold : r.start.Throughout r.setup r.moves fun s => s.channel.value = false

theorem series (r : SeededRun recipe seed) (user : Nat) :
    ∃ times rest, (∀ seconds, r.start.clock = .fixed seconds → ∀ now ∈ times, now = seconds) ∧
      recipe.series times (.ofSeed (seed + user.toUInt64)) =
        some (.ok (r.last.pushesOf user), rest) := by
  have always : r.start.Throughout r.setup r.moves fun s =>
      ∀ seconds, r.start.clock = .fixed seconds →
        (s.clock.read (r.setup.daytime s.now)).1 = seconds := by
    intro passed before s reached seconds fixed
    rw [throughout_fixed fixed passed before s reached]
    rfl
  obtain ⟨times, rest, allowed, series⟩ := series_of_run
    (fun now => ∀ seconds, r.start.clock = .fixed seconds → now = seconds) r.initial always r.run
    user
  rw [r.recipe_eq] at series
  exact ⟨times, rest, fun seconds fixed now inside => allowed now inside seconds fixed, series⟩

theorem length_pushesOf {r : SeededRun recipe seed} {limit : Nat} (completes : r.Completes limit)
    (user : Nat) : (r.last.pushesOf user).length = if user < r.count then limit else 0 := by
  have numbered := r.initial.numbered.after? r.run
  split
  · rename_i bound
    rw [← numbered.length_users] at bound
    have member := List.getElem_mem bound
    have same := numbered.id_eq (List.getElem?_eq_getElem bound)
    generalize r.last.users[user] = u at member same
    have done := State.done_of_isOver completes.allOver member (completes.uncrashed u member)
    obtain ⟨iterations, -, returned, settled, sent⟩ := ledger_of_run r.initial r.run u member
    rw [done, same] at sent
    have below := iterations_le r.initial completes.policy r.run u member
    have above := le_iterations r.initial completes.policy completes.untold r.run u member done
    have length := congrArg List.length settled
    simp only [Setup.settled, List.length_mapIdx, List.length_map, ← iterations] at length
    rw [show r.last.pushesOf user = returned from sent, length]
    omega
  · rename_i unknown
    rw [pushesOf_eq_nil r.initial r.run unknown, List.length_nil]

/-- Seen through `view`, what a user sent in one of the runs is a prefix of what it sent in the
other. -/
structure Reproduces {β : Type} (view : Push → β) (first second : SeededRun recipe seed) :
    Prop where
  comparable : ∀ user,
    (first.last.pushesOf user).map view <+: (second.last.pushesOf user).map view ∨
      (second.last.pushesOf user).map view <+: (first.last.pushesOf user).map view
  complete : ∀ limit, first.count = second.count → first.Completes limit →
    second.Completes limit →
      (first.last.posts.map (view ·.push)).Perm (second.last.posts.map (view ·.push))

theorem reproduces_of_agree {β : Type} [DecidableEq β] {view : Push → β}
    {first second : SeededRun recipe seed}
    (agree : ∀ now later, (∀ seconds, first.start.clock = .fixed seconds → now = seconds) →
      (∀ seconds, second.start.clock = .fixed seconds → later = seconds) →
        recipe.Agree view now later ∧ recipe.Agree view later now) :
    first.Reproduces view second := by
  have comparable : ∀ user,
      (first.last.pushesOf user).map view <+: (second.last.pushesOf user).map view ∨
        (second.last.pushesOf user).map view <+: (first.last.pushesOf user).map view := by
    intro user
    obtain ⟨times, _, fixed, firstSeries⟩ := first.series user
    obtain ⟨others, _, fixedOthers, secondSeries⟩ := second.series user
    have both : ∀ now ∈ times, ∀ later ∈ others,
        recipe.Agree view now later ∧ recipe.Agree view later now :=
      fun now inside later among => agree now later
        (fun seconds clock => fixed seconds clock now inside)
        (fun seconds clock => fixedOthers seconds clock later among)
    exact Recipe.series_comparable (fun now inside later among => (both now inside later among).1)
      (fun later among now inside => (both now inside later among).2) firstSeries secondSeries
  refine ⟨comparable, fun limit count firstCompletes secondCompletes => posts_perm fun user => ?_⟩
  -- Prefixes of one length are equal.
  have lengths : ((first.last.pushesOf user).map view).length =
      ((second.last.pushesOf user).map view).length := by
    rw [List.length_map, List.length_map, length_pushesOf firstCompletes,
      length_pushesOf secondCompletes, count]
  rcases comparable user with shorter | longer
  · exact shorter.eq_of_length lengths
  · exact (longer.eq_of_length lengths.symm).symm

end SeededRun

/-- Each user sends a series from the words of the seed and its number, whatever else is
different. -/
theorem seeded_runs {recipe : Recipe} {seed : UInt64} (first second : SeededRun recipe seed) :
    (∀ user, ∃ times rest,
      (∀ seconds, first.start.clock = .fixed seconds → ∀ now ∈ times, now = seconds) ∧
        recipe.series times (.ofSeed (seed + user.toUInt64)) =
          some (.ok (first.last.pushesOf user), rest)) ∧
    (∀ seconds, first.start.clock = .fixed seconds → second.start.clock = .fixed seconds →
      first.Reproduces Push.body second) ∧
    first.Reproduces Push.timeless second := by
  refine ⟨first.series, ?_, ?_⟩
  · intro seconds firstClock secondClock
    refine SeededRun.reproduces_of_agree fun now later fixed fixedLater => ?_
    rw [fixed seconds firstClock, fixedLater seconds secondClock]
    exact ⟨Recipe.agree_refl seconds, Recipe.agree_refl seconds⟩
  · exact SeededRun.reproduces_of_agree fun now later _ _ =>
      ⟨Recipe.agree_timeless now later, Recipe.agree_timeless later now⟩

def silentSetup : Setup :=
  { pairSetup with transport := fun _ => ⟨0, .silence, []⟩, thinkTime := some (.ofMillis 20) }

def seededStart : State := .initial (.fixed 1700000000) {} .empty (wordsOf (some 7) fun _ => 0) 1

def answeredMoves : List Move := [.start 0, .decide 0, .advance 5, .settle 0, .decide 0]

def silentMoves : List Move :=
  [.start 0, .decide 0, .advance 100, .settle 0, .advance 120, .wake 0, .decide 0]

theorem exists_seededRun (setup : Setup) (moves : List Move)
    (recipe : setup.delivery.recipe = .default) (policy : setup.policy = .iterations 1)
    (quiet : ∀ move ∈ moves, move ≠ .signal (.send (!false)))
    (ends : (seededStart.after? setup moves).any (fun s =>
      s.isOver && s.users.all fun u => !u.phase.isCrashed) = true) :
    ∃ r : SeededRun .default 7, r.setup = setup ∧ r.start = seededStart ∧ r.count = 1 ∧
      r.Completes 1 := by
  obtain ⟨last, run, ended⟩ := (Option.any_eq_true _ _).1 ends
  obtain ⟨allOver, survived⟩ := Bool.and_eq_true_iff.1 ended
  refine ⟨⟨setup, fun _ => 0, 1, seededStart, moves, last, recipe,
    State.initial_isInitial _ _ _ _ _, run⟩, rfl, rfl, rfl, policy, allOver, ?_,
    State.throughout_value quiet rfl⟩
  simpa using survived

theorem seeded_runs_one_user :
    ∃ first second : SeededRun .default 7, first.setup = pairSetup ∧ second.setup = silentSetup ∧
      first.Completes 1 ∧ second.Completes 1 ∧
      (first.last.posts.map (·.push.body)).Perm (second.last.posts.map (·.push.body)) := by
  obtain ⟨first, answered, start, count, completes⟩ :=
    exists_seededRun pairSetup answeredMoves rfl rfl (by decide)
      (by decide +kernel)
  obtain ⟨second, silent, startSecond, countSecond, completesSecond⟩ :=
    exists_seededRun silentSetup silentMoves rfl rfl (by decide)
      (by decide +kernel)
  have reproduced := (seeded_runs first second).2.1 1700000000 (by rw [start]; rfl)
    (by rw [startSecond]; rfl)
  exact ⟨first, second, answered, silent, completes, completesSecond,
    reproduced.complete 1 (count.trans countSecond.symm) completes completesSecond⟩

end Volley.Run
