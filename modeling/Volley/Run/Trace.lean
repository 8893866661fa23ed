import Volley.Run.State

/-! Every run is a list of moves that are possible one after the other. -/

namespace Volley.Run

structure Returned where
  user : Nat
  time : Nat
  outcome : Outcome
  deriving Repr, DecidableEq

def outcomesOf (user : Nat) (returned : List Returned) : List Outcome :=
  (returned.filter (·.user = user)).map (·.outcome)

def Setup.settled (setup : Setup) (user : Nat) (pushes : List Push) : List Settled :=
  pushes.mapIdx fun index push =>
    setup.delivery.settle push (setup.transport ⟨user, index, push⟩)

namespace State

/-- Nobody has moved yet, and nothing was sent. The users are numbered from zero, and each has its
own words. -/
structure IsInitial (s : State) (words : Nat → WordSource) (count : Nat) : Prop where
  now : s.now = 0
  posts : s.posts = []
  users : s.users = (List.range count).map fun id => { id, words := words id }

def after? (setup : Setup) (s : State) : List Move → Option State
  | [] => some s
  | move :: rest => (s.move? setup move).bind fun t => t.after? setup rest

/-- Whether a property holds of every state that some moves pass, first and last included. -/
def Throughout (setup : Setup) (s : State) (moves : List Move) (property : State → Prop) : Prop :=
  ∀ passed, passed <+: moves → ∀ t, s.after? setup passed = some t → property t

def returned? (setup : Setup) (s : State) (move : Move) : Option Returned := do
  let .settle i := move | none
  let .calling push reply _ := (← s.users[i]?).phase | none
  let .outcome outcome := setup.delivery.settle push reply | none
  return ⟨i, s.now, outcome⟩

def returns (setup : Setup) (s : State) : List Move → List Returned
  | [] => []
  | move :: rest =>
    (s.returned? setup move).toList ++
      match s.move? setup move with
      | some t => t.returns setup rest
      | none => []

def pushesOf (s : State) (user : Nat) : List Push :=
  ((s.posts.filter (·.user = user)).map (·.push)).reverse

end State

end Volley.Run
