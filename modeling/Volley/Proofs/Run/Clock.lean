import Mathlib.Data.List.Chain
import Volley.Proofs.Run.Inquiries
import Volley.Proofs.Run.Seed

namespace Volley

namespace Inquiries

variable {recipe : Recipe} {words : Nat → WordSource} {s t last : Inquiries} {moves : List Move}
  {i j : Nat} {p q : Inquiry} {time : Int64}

def Precedes (recipe : Recipe) (words : Nat → WordSource) (moves : List Move) (i j : Nat) : Prop :=
  ∃ earlier rest s q, moves = earlier ++ rest ∧ (start words).after? recipe earlier = some s ∧
    s.made[i]? = some q ∧ q.answer?.isSome = true ∧ s.made.length ≤ j

theorem Precedes.concat (precedes : Precedes recipe words moves i j) (move : Move) :
    Precedes recipe words (moves ++ [move]) i j := by
  obtain ⟨earlier, rest, s, q, rfl, others⟩ := precedes
  exact ⟨earlier, rest ++ [move], s, q, List.append_assoc .., others⟩

theorem precedes_of_user (run : (start words).after? recipe moves = some last)
    (first : last.made[i]? = some p) (second : last.made[j]? = some q) (user : p.user = q.user)
    (lt : i < j) : Precedes recipe words moves i j := by
  refine run_induction (fun moves s => ∀ {i j : Nat} {p q : Inquiry}, s.made[i]? = some p →
    s.made[j]? = some q → p.user = q.user → i < j → Precedes recipe words moves i j)
    (by simp [start]) ?_ run first second user lt
  intro moves s move t reached before step i j p q first second user lt
  rcases step.made_cases first with ⟨p', earlier, laterFirst⟩ | ⟨place, -⟩
  · rcases step.made_cases second with ⟨q', alsoEarlier, laterSecond⟩ | ⟨place, -, free⟩
    · refine (before earlier alsoEarlier ?_ lt).concat move
      rw [← laterFirst.user, user, laterSecond.user]
    · exact ⟨moves, [move], s, p', rfl, reached, earlier,
        free p' (List.mem_of_getElem? earlier) (laterFirst.user.symm.trans user), place.ge⟩
  · rcases step.made_cases second with ⟨q', earlier, -⟩ | ⟨alsoPlace, -⟩
    · have bound := (List.getElem?_eq_some_iff.1 earlier).1
      omega
    · omega

theorem le_of_precedes (run : (start words).after? recipe moves = some last)
    (precedes : Precedes recipe words moves i j) (first : last.made[i]? = some p)
    (second : last.made[j]? = some q) {newest : Int64} (before : p.certain? = some time)
    (after : q.certain? = some newest) : time ≤ newest := by
  obtain ⟨earlier, rest, s, r, split, reached, found, answered, bound⟩ := precedes
  obtain ⟨_, kept⟩ := kept_of_run reached
  obtain ⟨_, keptLast⟩ := kept_of_run run
  obtain ⟨_, answer⟩ := Option.isSome_iff_exists.1 answered
  have takenFirst := kept.taken found (Inquiry.certain_of_answer answer)
  have takenSecond : .take j ∈ rest := by
    have taken := keptLast.taken second after
    rw [split] at taken
    refine (List.mem_append.1 taken).resolve_left fun early => ?_
    exact Nat.not_lt.2 bound (kept.present early)
  -- What the clock took in for the first inquiry, it took in before the second as well.
  obtain ⟨a, b, rfl⟩ := List.append_of_mem takenFirst
  obtain ⟨c, d, rfl⟩ := List.append_of_mem takenSecond
  have one : moves = a ++ .take i :: (b ++ (c ++ .take j :: d)) := by simpa using split
  have two : moves = (a ++ .take i :: b ++ c) ++ .take j :: d := by simpa using split
  obtain ⟨_, sure, one, -⟩ := certain_of_run run first one
  obtain ⟨_, alsoSure, -, above⟩ := certain_of_run run second two
  cases before.symm.trans sure
  cases after.symm.trans alsoSure
  apply above
  rcases one with zero | own | ⟨k, r, taken, place, rfl⟩
  · exact .inl zero
  · exact .inr (.inr ⟨i, p, by simp, first, own.symm⟩)
  · exact .inr (.inr ⟨k, r, by simp [taken], place, rfl⟩)

end Inquiries

namespace Run

variable {setup : Setup} {start last : State} {moves : List Move} {words : Nat → WordSource}
  {count : Nat}

theorem timestamps_of_run (initial : start.IsInitial words count) (clock : start.clock = .start)
    (run : start.after? setup moves = some last) :
    last.posts.Pairwise fun later earlier => earlier.push.timestamp ≤ later.push.timestamp := by
  suffices kept : ∃ latest, last.clock = .monotone latest ∧
      (∀ post ∈ last.posts, post.push.timestamp ≤ latest) ∧
      last.posts.Pairwise fun later earlier => earlier.push.timestamp ≤ later.push.timestamp by
    obtain ⟨_, -, -, ordered⟩ := kept
    exact ordered
  refine State.after?_invariant (fun s => ∃ latest, s.clock = .monotone latest ∧
    (∀ post ∈ s.posts, post.push.timestamp ≤ latest) ∧
    s.posts.Pairwise fun later earlier => earlier.push.timestamp ≤ later.push.timestamp) ?_
    initial.numbered ⟨0, clock, by simp [initial.posts], by simp [initial.posts]⟩ run
  rintro s t move - ⟨latest, shown, below, ordered⟩ step
  cases step with
  | turn mover returned turn =>
      rcases turn.step.composes with ⟨rfl, -⟩ | ⟨push, rfl, composed⟩
      · have posts : t.posts = s.posts := turn.posts
        rw [posts]
        rcases turn.clock with ⟨-, kept⟩ | read
        · exact ⟨latest, kept.trans shown, below, ordered⟩
        · obtain ⟨-, above⟩ := isGreatest_max latest (setup.daytime s.now)
          refine ⟨_, by rw [read, shown]; rfl, fun post sent => ?_, ordered⟩
          exact Int64.le_trans (below post sent) (above (.inl rfl))
      · rw [shown, Clock.read_monotone] at composed
        have time := Recipe.timestamp_of_compose composed
        obtain ⟨-, above⟩ := isGreatest_max latest (setup.daytime s.now)
        have later : ∀ post ∈ s.posts, post.push.timestamp ≤ push.timestamp := fun post sent => by
          rw [time]
          exact Int64.le_trans (below post sent) (above (.inl rfl))
        refine ⟨push.timestamp, ?_, ?_, ?_⟩
        · rcases turn.clock with ⟨⟨⟩, -⟩ | read
          rw [read, shown, time]
          rfl
        · simpa [turn.posts, Int64.le_refl] using later
        · simpa [turn.posts] using ⟨later, ordered⟩
  | signal signal => exact ⟨latest, shown, below, ordered⟩
  | advance later goesOn quiet => exact ⟨latest, shown, below, ordered⟩

end Run

namespace Inquiries

variable {recipe : Recipe} {words : Nat → WordSource} {s last : Inquiries} {moves : List Move}
  {i : Nat} {q : Inquiry}

theorem answer_of_taken (recipe : Recipe) {held : Clock} (inquiry : s.made[i]? = some q)
    (taken : q.stage = .taken held) :
    ∃ t p, s.move? recipe (.answer i) = some t ∧ t.made[i]? = some p ∧
      p.answer?.isSome = true := by
  have made : s.move? recipe (.answer i) =
      some (s.put i q (.answered (held.read q.reading).1)) := by
    simp [move?, answer, inquiry, taken]
  have found := getElem?_made inquiry (t := s.put i q (.answered (held.read q.reading).1)) rfl i
  rw [if_pos rfl] at found
  exact ⟨_, _, made, found, rfl⟩

theorem exists_answer (recipe : Recipe) (inquiry : s.made[i]? = some q) :
    ∃ own t p, own <:+ [.take i, .answer i] ∧ s.after? recipe own = some t ∧
      t.made[i]? = some p ∧ p.answer?.isSome = true := by
  cases stage : q.stage with
  | asked =>
      have made : s.move? recipe (.take i) = some
          { s.put i q (.taken s.clock) with clock := (s.clock.read q.reading).2 } := by
        simp [move?, take, inquiry, stage]
      have found := getElem?_made inquiry (t := { s.put i q (.taken s.clock) with
        clock := (s.clock.read q.reading).2 }) rfl i
      rw [if_pos rfl] at found
      obtain ⟨t, p, answer, told⟩ := answer_of_taken recipe found rfl
      exact ⟨_, t, p, List.suffix_refl _,
        after?_cons.2 ⟨_, made, after?_cons.2 ⟨t, answer, rfl⟩⟩, told⟩
  | taken held =>
      obtain ⟨t, p, answer, told⟩ := answer_of_taken recipe inquiry stage
      exact ⟨_, t, p, List.suffix_cons _ _, after?_cons.2 ⟨t, answer, rfl⟩, told⟩
  | _ => exact ⟨[], s, q, List.nil_suffix, rfl, inquiry, by simp [Inquiry.answer?, stage]⟩

def Composes (s : Inquiries) (i : Nat) (push : Push) : Prop :=
  ∃ q, s.made[i]? = some q ∧ q.push? = some push

/-- However inquiries overlap, no answer is earlier than one that was given before its inquiry was
made, and the times in the pushes do not go back along such inquiries. -/
theorem never_back (run : (start words).after? recipe moves = some last) :
    (∀ i q, last.made[i]? = some q →
      (∃ own t p, own <:+ [.take i, .answer i] ∧ last.after? recipe own = some t ∧
        t.made[i]? = some p ∧ p.answer?.isSome = true) ∧
      ∀ time, q.answer? = some time → .take i ∈ moves ∧ q.reading ≤ time ∧
        ∀ earlier rest, moves = earlier ++ .take i :: rest →
          IsGreatest (insert 0 (insert q.reading (last.readings earlier))) time) ∧
    (∀ i j p q first second, Precedes recipe words moves i j → last.made[i]? = some p →
      p.answer? = some first → last.made[j]? = some q → q.answer? = some second →
        first ≤ second) ∧
    (∀ chain : List (Nat × Push), (∀ link ∈ chain, last.Composes link.1 link.2) →
      (chain.map (·.1)).IsChain (Precedes recipe words moves) →
        (chain.map (·.2.timestamp)).Pairwise (· ≤ ·)) ∧
    (∀ user, ((last.pushesOf user).map (·.timestamp)).Pairwise (· ≤ ·)) ∧
    ∀ (setup : Run.Setup) (start last : Run.State) (moves : List Run.Move)
      (words : Nat → WordSource) (count : Nat), start.IsInitial words count →
      start.clock = .start → start.after? setup moves = some last →
        last.posts.Pairwise fun later earlier =>
          earlier.push.timestamp ≤ later.push.timestamp := by
  have linked : ∀ {i j p q first second}, Precedes recipe words moves i j →
      last.made[i]? = some p → p.push? = some first → last.made[j]? = some q →
        q.push? = some second → first.timestamp ≤ second.timestamp :=
    fun precedes first composed second alsoComposed => le_of_precedes run precedes first second
      (stamped_of_run run first composed) (stamped_of_run run second alsoComposed)
  refine ⟨fun i q inquiry => ⟨exists_answer recipe inquiry, fun time answer => ?_⟩, ?_, ?_, ?_, ?_⟩
  · have certain := Inquiry.certain_of_answer answer
    obtain ⟨_, kept⟩ := kept_of_run run
    have greatest : ∀ earlier rest, moves = earlier ++ .take i :: rest →
        IsGreatest (insert 0 (insert q.reading (last.readings earlier))) time := by
      intro earlier rest split
      obtain ⟨_, same, greatest⟩ := certain_of_run run inquiry split
      cases certain.symm.trans same
      exact greatest
    have taken := kept.taken inquiry certain
    obtain ⟨earlier, rest, split⟩ := List.append_of_mem taken
    exact ⟨taken, (greatest earlier rest split).2 (.inr (.inl rfl)), greatest⟩
  · intro i j p q first second precedes found answer alsoFound alsoAnswer
    exact le_of_precedes run precedes found alsoFound (Inquiry.certain_of_answer answer)
      (Inquiry.certain_of_answer alsoAnswer)
  · intro chain composed ordered
    rw [← List.isChain_iff_pairwise, List.isChain_map]
    refine ((List.isChain_map _).1 ordered).imp_of_mem_imp fun a b member alsoMember precedes => ?_
    obtain ⟨p, found, push⟩ := composed a member
    obtain ⟨q, alsoFound, alsoPush⟩ := composed b alsoMember
    exact linked precedes found push alsoFound alsoPush
  · intro user
    rw [pushesOf, List.pairwise_map, List.pairwise_filterMap, List.pairwise_filter,
      List.pairwise_iff_getElem]
    intro i j inside alsoInside lt own alsoOwn first push second alsoPush
    have same := (of_decide_eq_true own).trans (of_decide_eq_true alsoOwn).symm
    exact linked (precedes_of_user run (List.getElem?_eq_getElem inside)
      (List.getElem?_eq_getElem alsoInside) same lt) (List.getElem?_eq_getElem inside) push
      (List.getElem?_eq_getElem alsoInside) alsoPush
  · intro setup start last moves words count initial clock run
    exact Run.timestamps_of_run initial clock run

def wordless : Nat → WordSource := fun _ => .ofWords []

def overlapping : List Move :=
  [.ask 0 100, .take 0, .ask 1 105, .take 1, .answer 1, .compose 1, .answer 0, .compose 0,
    .ask 0 (-7), .take 2, .answer 2, .compose 2]

def tellings (s : Inquiries) : List (Nat × Int64 × Option Int64 × Option Int64) :=
  s.made.map fun q => (q.user, q.reading, q.answer?, q.push?.map (·.timestamp))

theorem never_back_overlapping :
    ∃ last, (start wordless).after? .default overlapping = some last ∧
      last.tellings = [(0, 100, some 100, some 100), (1, 105, some 105, some 105),
        (0, -7, some 105, some 105)] ∧
      IsGreatest (insert 0 (insert (-7) (last.readings (overlapping.take 9)))) 105 ∧
      Precedes .default wordless overlapping 0 2 ∧ (100 : Int64) ≤ 105 ∧
      (∃ early late, last.Composes 0 early ∧ last.Composes 2 late ∧
        [early.timestamp, late.timestamp].Pairwise (· ≤ ·)) ∧
      ((last.pushesOf 0).map (·.timestamp)).Pairwise (· ≤ ·) ∧
      ∃ left, Run.pairStart.after? Run.pairSetup Run.pairMoves = some left ∧
        left.posts.Pairwise fun later earlier =>
          earlier.push.timestamp ≤ later.push.timestamp := by
  have runs : ((start wordless).after? .default overlapping).any (fun last =>
      last.tellings = [(0, 100, some 100, some 100), (1, 105, some 105, some 105),
        (0, -7, some 105, some 105)]) = true := by
    decide +kernel
  obtain ⟨last, run, told⟩ := (Option.any_eq_true _ _).1 runs
  have told := of_decide_eq_true told
  obtain ⟨p, q, r, made⟩ : ∃ p q r, last.made = [p, q, r] := by
    have three := congrArg List.length told
    rw [tellings, List.length_map] at three
    exact List.length_eq_three.1 three
  have shown := told
  simp only [tellings, made, List.map_cons, List.map_nil, List.cons.injEq, Prod.mk.injEq,
    Option.map_eq_some_iff, and_true] at told
  obtain ⟨⟨user, reading, first, early, composed, -⟩, -, alsoUser, alsoReading, second, late,
    alsoComposed, -⟩ := told
  have place : last.made[0]? = some p := by rw [made]; rfl
  have alsoPlace : last.made[2]? = some r := by rw [made]; rfl
  have precedes := precedes_of_user run place alsoPlace (user.trans alsoUser.symm) (by decide)
  obtain ⟨each, ordered, chained, users, along⟩ := never_back run
  obtain ⟨left, sends⟩ : ∃ left, Run.pairStart.after? Run.pairSetup Run.pairMoves = some left :=
    Option.isSome_iff_exists.1 (by decide +kernel)
  have greatest := (((each 2 r alsoPlace).2 105 second).2.2 (overlapping.take 9)
    (overlapping.drop 10) rfl)
  rw [alsoReading] at greatest
  refine ⟨last, run, shown, greatest, precedes,
    ordered 0 2 p r 100 105 precedes place first alsoPlace second,
    ⟨early, late, ⟨p, place, composed⟩, ⟨r, alsoPlace, alsoComposed⟩, ?_⟩, users 0, left, sends,
    along _ _ _ _ _ 2 (Run.State.initial_isInitial _ _ _ _ 2) rfl sends⟩
  refine chained [(0, early), (2, late)] ?_ (by simpa using precedes)
  intro link member
  rcases List.mem_pair.1 member with rfl | rfl
  · exact ⟨p, place, composed⟩
  · exact ⟨r, alsoPlace, alsoComposed⟩

end Inquiries

end Volley
