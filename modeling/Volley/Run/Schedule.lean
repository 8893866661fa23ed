import Volley.Run.Report

/-!
One of the orders in which moves can happen: signals that are due, then the first user that can
move.
-/

namespace Volley.Run

abbrev Timeline := List (Nat × Signal)

def wordsOf (seed : Option UInt64) (entropy : Nat → UInt64) (user : Nat) : WordSource :=
  match seed with
  | some seed => .ofSeed (seed + user.toUInt64)
  | none => .ofSeed (entropy user)

namespace State

def initial (clock : Clock) (channel : Channel) (metrics : Metrics) (words : Nat → WordSource)
    (users : Nat) : State :=
  { clock, channel, metrics, users := (List.range users).map fun id => { id, words := words id } }

end State

namespace User

def move? (u : User) (now : Nat) (c : Channel) : Option Move :=
  match u.phase with
  | .fresh => some (.start u.id)
  | .ready => some (.decide u.id)
  | .calling _ _ time => if time ≤ now then some (.settle u.id) else none
  | .thinking time =>
    if c.hasNews u.seen then some (.interrupt u.id)
    else if time ≤ now then some (.wake u.id)
    else none
  | .done => none
  | .crashed _ => none

end User

def nextMove (s : State) (timeline : Timeline) : Option (Move × Timeline) :=
  let users := s.users.findSome? fun u => u.move? s.now s.channel
  let due := (s.users.filterMap fun u => u.due? s.now s.channel).min?
  match timeline with
  | (time, signal) :: rest =>
    if time ≤ s.now then some (.signal signal, rest)
    else
      match users with
      | some move => some (move, timeline)
      | none => some (.advance ((due.map (min time)).getD time), timeline)
  | [] =>
    match users with
    | some move => some (move, [])
    | none => due.map fun time => (.advance time, [])

def State.run (setup : Setup) : Nat → Timeline → State → Option State
  | 0, _, _ => none
  | rounds + 1, timeline, s =>
    if s.isOver then some s
    else do
      let (move, timeline) ← nextMove s timeline
      run setup rounds timeline (← s.move? setup move)

def moveLimit : Nat := 100000000

inductive Completion
  | finished (report : Report) (state : State)
  | panic (message : String)
  | endless

def perform (setup : Setup) (seed : Option UInt64) (timeline : Timeline) (s : State) : Completion :=
  let users := s.users.length
  if !setup.deadline?.all setup.holds then .panic overflow
  else
    match (s.log [Report.startNote users setup.policy seed]).run setup moveLimit timeline with
    | some last =>
      let report := Report.ofState last
      .finished report (last.log [report.endNote users])
    | none => .endless

end Volley.Run
