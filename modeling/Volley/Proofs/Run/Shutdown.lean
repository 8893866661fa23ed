import Volley.Proofs.Run.Accounting
import Volley.Proofs.Run.Fate
import Volley.Proofs.Run.Progress

namespace Volley.Run

variable {setup : Setup} {s t start told last : State} {move : Move} {earlier later : List Move}
  {count : Nat} {words : Nat → WordSource}

theorem exists_move (numbered : s.Numbered count) (value : s.channel.value = true)
    (goesOn : s.isOver = false) :
    ∃ move, move.isSignal = false ∧ (s.move? setup move).isSome = true :=
  exists_move_of_able numbered (State.able_of_told value) goesOn

/-- How many moves a user that is told to stop makes at most. -/
def Phase.weight : Phase → Nat
  | .fresh => 2
  | .ready => 1
  | .calling .. => 3
  | .thinking _ => 2
  | .done => 0
  | .crashed _ => 0

def State.weight (s : State) : Nat := s.total fun u => u.phase.weight

theorem User.Step.weight_lt {u v : User} {sent : Option Push} {outcome : Option Outcome}
    (step : u.Step setup s sent outcome v) (told : s.channel.value = true) :
    v.phase.weight < u.phase.weight := by
  cases step with
  | start fresh => simp [fresh, Phase.weight]
  | stop ready told => simp [ready, Phase.weight]
  | finish ready untold finished => simp [ready, Phase.weight]
  | call ready untold unfinished composed => simp [told] at untold
  | spoil ready untold unfinished spoiled => simp [told] at untold
  | crash calling due settled => simp [calling, Phase.weight]
  | goOn calling due settled =>
      rw [calling]
      rcases setup.resume_cases s.now with ⟨resumed, -⟩ | ⟨ends, resumed, -⟩ | ⟨resumed, -⟩ <;>
        simp [resumed, Phase.weight]
  | wake thinking due => simp [thinking, Phase.weight]
  | interrupt thinking news => simp [thinking, Phase.weight]

theorem State.weight_le (numbered : s.Numbered count) : s.weight ≤ 3 * count := by
  rw [Nat.mul_comm]
  refine State.total_le numbered fun u _ => ?_
  cases u.phase <;> simp [Phase.weight]

theorem moves_le (numbered : s.Numbered count) {bound : Nat}
    (always : s.Throughout setup later fun s => s.channel.value = true ∧ s.now ≤ bound)
    (after : s.after? setup later = some last) :
    later.countP (!·.isSignal) + last.weight + (bound - last.now) ≤ s.weight + (bound - s.now) :=
  countP_moves_le (fun told _ step => step.weight_lt told) numbered always after

theorem fate_of_run (initial : start.IsInitial words count)
    (before : start.after? setup earlier = some told)
    (stays : told.Throughout setup later fun s => s.channel.value = true)
    (after : told.after? setup later = some last) {i : Nat} {u : User}
    (user : told.users[i]? = some u) :
    ∃ v, last.users[i]? = some v ∧ u.Fate setup told.now last.now v := by
  have numbered := initial.numbered.after? before
  have lastNumbered := numbered.after? after
  have bound : i < last.users.length := by
    obtain ⟨bound, -⟩ := List.getElem?_eq_some_iff.1 user
    rwa [lastNumbered.length_users, ← numbered.length_users]
  have place := List.getElem?_eq_getElem bound
  obtain ⟨w, member, same, fate⟩ :=
    (stopping_of_run initial before stays after).fates _ (List.getElem_mem bound)
  have sameUser := numbered.eq_of_id member (List.mem_of_getElem? user)
    (same.trans ((lastNumbered.id_eq place).trans (numbered.id_eq user).symm))
  exact ⟨_, place, sameUser ▸ fate⟩

/-- Once users are told to stop, no call starts, the calls at hand end within their limit, and so
does the run. -/
theorem shutdown_prompt (initial : start.IsInitial words count)
    (before : start.after? setup earlier = some told)
    (stays : told.Throughout setup later fun s => s.channel.value = true)
    (after : told.after? setup later = some last) :
    last.posts = told.posts ∧
    (∀ (i : Nat) (u : User), told.users[i]? = some u →
      ∃ v, last.users[i]? = some v ∧ u.Fate setup told.now last.now v) ∧
    (∀ u ∈ told.users, ∀ push reply ends, u.phase = .calling push reply ends → told.now ≤ ends ∧
      ∃ passed begun, passed <+: earlier ∧ start.after? setup passed = some begun ∧
        begun.now ≤ told.now ∧ begun.users[u.id]?.map (·.phase) = some .ready ∧
        ends = begun.now + setup.delivery.length reply ∧
        ends ≤ begun.now + setup.delivery.limit) ∧
    last.now ≤ told.now + setup.delivery.limit ∧
    (last.isOver = false → ∃ move, move.isSignal = false ∧ (last.move? setup move).isSome = true) ∧
    later.countP (!·.isSignal) ≤ 3 * count + setup.delivery.limit ∧
    ∀ ended, (Report.ofEnded last ended).cancelled = true := by
  have numbered := initial.numbered.after? before
  have stopping := stopping_of_run initial before stays after
  have value : last.channel.value = true := stays later (List.prefix_refl later) last after
  refine ⟨stopping.posts, fun i u => fate_of_run initial before stays after, ?_, stopping.now_le,
    exists_move (numbered.after? after) value, ?_, fun _ => value⟩
  · intro u member push reply ends calling
    obtain ⟨passed, begun, first, reached, past, ready, length⟩ :=
      call_began initial before member calling
    refine ⟨(timely_of_run initial before u member).le_ends push reply ends calling, passed, begun,
      first, reached, past, ready, length, ?_⟩
    rw [length]
    exact Nat.add_le_add_left (length_le _ _) _
  · have always : told.Throughout setup later fun s =>
        s.channel.value = true ∧ s.now ≤ told.now + setup.delivery.limit := by
      intro passed first s reached
      have stays : told.Throughout setup passed fun s => s.channel.value = true :=
        fun front inner => stays front (inner.trans first)
      exact ⟨stays passed (List.prefix_refl passed) s reached,
        (stopping_of_run initial before stays reached).now_le⟩
    have moves := moves_le numbered always after
    have weight := State.weight_le numbered
    omega

def pausingSetup : Setup :=
  { pairSetup with
    policy := .iterations 3
    thinkTime := some (.ofMillis 50)
    transport := fun call => if call.user = 0 then ⟨0, .silence, []⟩ else ⟨5, .answer 200 "", []⟩ }

def untilTold : List Move :=
  [.start 0, .start 1, .decide 0, .decide 1, .advance 5, .settle 1, .signal (.send true)]

def sinceTold : List Move :=
  [.signal .close, .interrupt 1, .decide 1, .advance 100, .settle 0, .interrupt 0, .decide 0]

theorem shutdown_prompt_pausing :
    ∃ told last, pairStart.after? pausingSetup untilTold = some told ∧
      told.after? pausingSetup sinceTold = some last ∧ last.isOver = true ∧
      last.posts = told.posts ∧ last.now ≤ told.now + 100 := by
  have tells : (pairStart.after? pausingSetup untilTold).any (fun s =>
      s.channel.value && (s.after? pausingSetup sinceTold).any (·.isOver)) = true := by
    decide +kernel
  obtain ⟨told, before, tells⟩ := (Option.any_eq_true _ _).1 tells
  obtain ⟨value, ends⟩ := Bool.and_eq_true_iff.1 tells
  obtain ⟨last, after, allOver⟩ := (Option.any_eq_true _ _).1 ends
  have prompt := shutdown_prompt (State.initial_isInitial _ _ _ _ 2) before
    (State.throughout_value (by decide) value) after
  exact ⟨told, last, before, after, allOver, prompt.1, prompt.2.2.2.1⟩

end Volley.Run
