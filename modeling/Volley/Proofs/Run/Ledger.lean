import Volley.Proofs.Run.Trace
import Volley.Proofs.Tally

namespace Volley.Run

variable {setup : Setup} {s t start last : State} {move : Move} {moves : List Move} {count : Nat}
  {history : List Returned} {words : Nat → WordSource}

theorem outcomesOf_append (user : Nat) (history more : List Returned) :
    outcomesOf user (history ++ more) = outcomesOf user history ++ outcomesOf user more := by
  simp [outcomesOf]

theorem outcomesOf_returned (user now : Nat) (outcome : Option Outcome) :
    outcomesOf user (outcome.map (⟨user, now, ·⟩)).toList = outcome.toList := by
  cases outcome <;> simp [outcomesOf]

theorem outcomesOf_others {user : Nat} {returned : Option Returned}
    (others : ∀ r ∈ returned, r.user ≠ user) : outcomesOf user returned.toList = [] := by
  cases returned with
  | none => rfl
  | some r => simp [outcomesOf, others r rfl]

theorem Setup.settled_concat (setup : Setup) (user : Nat) (pushes : List Push) (push : Push) :
    setup.settled user (pushes ++ [push]) = setup.settled user pushes ++
      [setup.delivery.settle push (setup.transport ⟨user, pushes.length, push⟩)] :=
  List.mapIdx_concat

def Phase.Sent (setup : Setup) (user : Nat) (returned sent : List Push) : Phase → Prop
  | .calling push reply _ =>
      sent = returned ++ [push] ∧ reply = setup.transport ⟨user, returned.length, push⟩
  | .crashed _ => returned <+: sent
  | _ => sent = returned

/-- The user has counted the outcomes that its iterations returned, and these are what became of
the pushes that it sent. -/
structure Ledger (setup : Setup) (s : State) (history : List Returned) (u : User) : Prop where
  iterations : u.iterations = (outcomesOf u.id history).length
  tally : u.tally = Tally.ofList (outcomesOf u.id history)
  calls : ∃ returned,
    setup.settled u.id returned = (outcomesOf u.id history).map .outcome ∧
      u.phase.Sent setup u.id returned (s.pushesOf u.id)

theorem Setup.resume_sent (setup : Setup) (now user : Nat) (sent : List Push) :
    (setup.resume now).Sent setup user sent sent :=
  setup.resume_induction now rfl (fun _ => rfl) (List.prefix_refl sent)

theorem User.Step.counted {u v : User} {sent : Option Push} {outcome : Option Outcome}
    (step : u.Step setup s sent outcome v) :
    v.iterations = u.iterations + outcome.toList.length ∧
      v.tally = outcome.toList.foldl Tally.record u.tally := by
  cases step <;> exact ⟨rfl, rfl⟩

theorem User.Step.sent {u v : User} {post : Option Push} {outcome : Option Outcome}
    (step : u.Step setup s post outcome v) {returned sent : List Push}
    (length : returned.length = u.iterations) (calls : u.phase.Sent setup u.id returned sent) :
    ∃ more, setup.settled u.id (returned ++ more) =
        setup.settled u.id returned ++ outcome.toList.map .outcome ∧
      v.phase.Sent setup u.id (returned ++ more) (sent ++ post.toList) := by
  cases step with
  | start fresh => exact ⟨[], by simp, by simpa [fresh, Phase.Sent] using calls⟩
  | stop ready told => exact ⟨[], by simp, by simpa [ready, Phase.Sent] using calls⟩
  | finish ready untold finished => exact ⟨[], by simp, by simpa [ready, Phase.Sent] using calls⟩
  | call ready untold unfinished composed =>
      exact ⟨[], by simp, by simpa [ready, Phase.Sent, length] using calls⟩
  | spoil ready untold unfinished spoiled =>
      rw [ready] at calls
      exact ⟨[], by simp, by simp [Phase.Sent, show sent = returned from calls]⟩
  | crash calling due settled =>
      -- The push was sent, and nothing returns for it.
      rw [calling] at calls
      exact ⟨[], by simp, by simp [Phase.Sent, calls.1]⟩
  | goOn calling due settled =>
      rw [calling] at calls
      obtain ⟨posted, reply⟩ := calls
      refine ⟨[_], ?_, by simpa [posted] using setup.resume_sent s.now u.id (returned ++ [_])⟩
      rw [setup.settled_concat, ← reply, settled]
      rfl
  | wake thinking due => exact ⟨[], by simp, by simpa [thinking, Phase.Sent] using calls⟩
  | interrupt thinking news => exact ⟨[], by simp, by simpa [thinking, Phase.Sent] using calls⟩

theorem Ledger.step {u v : User} {sent : Option Push} {outcome : Option Outcome}
    (ledger : Ledger setup s history u) (step : u.Step setup s sent outcome v)
    {later : List Returned} (returned : outcomesOf u.id later =
      outcomesOf u.id history ++ outcome.toList)
    (posted : t.pushesOf u.id = s.pushesOf u.id ++ sent.toList) : Ledger setup t later v := by
  obtain ⟨iterations, tally, pushes, settled, calls⟩ := ledger
  have length : pushes.length = u.iterations := by
    simpa [Setup.settled, iterations] using congrArg List.length settled
  obtain ⟨counted, recorded⟩ := step.counted
  obtain ⟨more, settled', calls'⟩ := step.sent length calls
  constructor
  · rw [step.id_eq, returned, counted, iterations, List.length_append]
  · rw [step.id_eq, returned, recorded, tally, Tally.ofList_append]
  · rw [step.id_eq, returned, posted, List.map_append, ← settled]
    exact ⟨pushes ++ more, settled', calls'⟩

theorem Ledger.frame {u : User} (ledger : Ledger setup s history u) {later : List Returned}
    (returned : outcomesOf u.id later = outcomesOf u.id history)
    (posted : t.pushesOf u.id = s.pushesOf u.id) : Ledger setup t later u := by
  obtain ⟨iterations, tally, calls⟩ := ledger
  exact ⟨by rw [returned, iterations], by rw [returned, tally], by rwa [returned, posted]⟩

theorem ledger_of_step (numbered : s.Numbered count)
    (ledgers : ∀ u ∈ s.users, Ledger setup s history u) (step : s.Step setup move t) :
    ∀ u ∈ t.users, Ledger setup t (history ++ (s.returned? setup move).toList) u := by
  intro w member
  rcases step.user_cases numbered member with
    ⟨unchanged, others, posted⟩ | ⟨u, sent, outcome, turn, returned⟩
  · refine (ledgers w unchanged).frame ?_ posted
    rw [outcomesOf_append, outcomesOf_others others, List.append_nil]
  · -- It is the turn of this user, which keeps its number.
    have posted := turn.pushesOf numbered w.id
    rw [if_pos rfl] at posted
    rw [turn.step.id_eq] at posted returned
    refine (ledgers u (List.mem_of_getElem? turn.user)).step turn.step ?_ posted
    rw [returned, outcomesOf_append, outcomesOf_returned]

theorem ledger_of_initial (initial : start.IsInitial words count) :
    ∀ u ∈ start.users, Ledger setup start [] u :=
  initial.forall_users fun _ =>
    ⟨rfl, rfl, [], rfl, by simp [Phase.Sent, State.pushesOf, initial.posts]⟩

theorem ledger_of_run (initial : start.IsInitial words count)
    (run : start.after? setup moves = some last) :
    ∀ u ∈ last.users, Ledger setup last (start.returns setup moves) u :=
  (State.after?_induction (fun _ => True)
    (fun s history => ∀ u ∈ s.users, Ledger setup s history u)
    (fun numbered _ _ ledgers step => ledger_of_step numbered ledgers step) [] initial.numbered
    (fun _ _ _ _ => trivial) (ledger_of_initial initial) run).2

theorem user_lt_of_post (initial : start.IsInitial words count)
    (run : start.after? setup moves = some last) : ∀ p ∈ last.posts, p.user < count := by
  refine State.after?_invariant (fun s => ∀ p ∈ s.posts, p.user < count) ?_
    initial.numbered (by simp [initial.posts]) run
  intro s t move numbered bound step p posted
  cases step with
  | turn mover returned turn =>
      rw [turn.posts, List.mem_append] at posted
      rcases posted with sent | before
      · simp only [Option.mem_toList, Option.map_eq_some_iff] at sent
        obtain ⟨push, -, rfl⟩ := sent
        exact numbered.id_lt (List.mem_of_getElem? turn.user)
      · exact bound p before
  | signal signal => exact bound p posted
  | advance later goesOn quiet => exact bound p posted

end Volley.Run
