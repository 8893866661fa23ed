import Volley.Metrics
import Volley.Plan.Policy
import Volley.Run.Channel
import Volley.Run.Clock
import Volley.Run.Delivery
import Volley.Tally

/-!
Moves of different users may follow one another in any order. Time, in whole milliseconds, advances
only while a user is left and none can move, and never past the time at which one can.
-/

namespace Volley.Run

structure Call where
  user : Nat
  index : Nat
  push : Push

structure Setup where
  delivery : Delivery
  policy : Policy
  thinkTime : Option Span
  transport : Call → Reply
  daytime : Nat → Int64
  origin : Nat

/-- The first reading in milliseconds that the clock of a run cannot hold: its seconds are a signed
word of 64 bits. -/
def clockEnd : Nat := 2 ^ 63 * 1000

def overflow : String := "overflow when adding duration to instant"

namespace Setup

def deadline? (s : Setup) : Option Nat :=
  match s.policy with
  | .iterations _ => none
  | .duration span => some span.ceilMillis

def holds (s : Setup) (time : Nat) : Bool := s.origin + time < clockEnd

def isFinished (s : Setup) (iterations now : Nat) : Bool :=
  match s.policy with
  | .iterations count => count ≤ iterations
  | .duration span => span.ceilMillis ≤ now

/-- The end of a pause that starts at `now`: no later than the deadline. -/
def wakeTime (s : Setup) (now : Nat) (pause : Span) : Nat :=
  match s.deadline? with
  | some deadline => min (now + pause.ceilMillis) deadline
  | none => now + pause.ceilMillis

end Setup

inductive Phase
  | fresh
  | ready
  | calling (push : Push) (reply : Reply) (ends : Nat)
  | thinking (ends : Nat)
  | done
  | crashed (message : String)
  deriving DecidableEq

namespace Phase

def isOver : Phase → Bool
  | .done => true
  | .crashed _ => true
  | _ => false

def isCrashed : Phase → Bool
  | .crashed _ => true
  | _ => false

end Phase

structure User where
  id : Nat
  words : WordSource
  phase : Phase := .fresh
  iterations : Nat := 0
  tally : Tally := .empty
  /-- The number of settings of the channel that the user has noticed. -/
  seen : Nat := 0

structure Post where
  user : Nat
  push : Push
  deriving DecidableEq

structure State where
  now : Nat := 0
  channel : Channel := {}
  clock : Clock
  users : List User
  metrics : Metrics := .empty
  posts : List Post := []
  events : List Log.Event := []

inductive Move
  | start (user : Nat)
  | decide (user : Nat)
  | settle (user : Nat)
  | wake (user : Nat)
  | interrupt (user : Nat)
  | signal (signal : Signal)
  | advance (time : Nat)
  deriving Repr, DecidableEq

/-! ## Moves of one user -/

def source : String := "chatify_push_loadtest::application::load_runner"

namespace User

def stopNote (u : User) : Log.Event :=
  ⟨.debug, source, "virtual user stopped by shutdown signal",
    [("vu_id", .number u.id), ("iterations", .number u.iterations)], []⟩

def crashNote (total : Nat) : Log.Event :=
  ⟨.error, source, "virtual user terminated abnormally", [],
    [⟨.info, source, "run", [("virtual_users", .number total)]⟩]⟩

def due? (u : User) (now : Nat) (c : Channel) : Option Nat :=
  match u.phase with
  | .fresh => some now
  | .ready => some now
  | .calling _ _ time => some time
  | .thinking time => if c.hasNews u.seen then some now else some time
  | .done => none
  | .crashed _ => none

end User

namespace State

def put (s : State) (u : User) : State := { s with users := s.users.set u.id u }

def log (s : State) (events : List Log.Event) : State :=
  { s with events := events.reverse ++ s.events }

def leave (s : State) (u : User) (phase : Phase) : State :=
  { s.put { u with phase } with metrics := s.metrics.shift (-1) }

def start (s : State) (u : User) : Option State :=
  match u.phase with
  | .fresh => some { s.put { u with phase := .ready } with metrics := s.metrics.shift 1 }
  | _ => none

/-- There is no such move if the words at hand never give a push. -/
def call (setup : Setup) (s : State) (u : User) : Option State := do
  let (time, clock) := s.clock.read (setup.daytime s.now)
  let (made, words) ← setup.delivery.recipe.compose time u.words
  let s := { s with clock }
  match made with
  | .error message => return (s.leave u (.crashed message)).log [User.crashNote s.users.length]
  | .ok push =>
    let reply := setup.transport ⟨u.id, u.iterations, push⟩
    let phase := Phase.calling push reply (s.now + setup.delivery.length reply)
    let s := s.put { u with words, phase }
    return ({ s with posts := ⟨u.id, push⟩ :: s.posts }).log
      (setup.delivery.openingNotes push reply)

def decide (setup : Setup) (s : State) (u : User) : Option State :=
  match u.phase with
  | .ready =>
    if s.channel.value then some ((s.leave u .done).log [u.stopNote])
    else if setup.isFinished u.iterations s.now then some (s.leave u .done)
    else s.call setup u
  | _ => none

def proceed (setup : Setup) (s : State) (u : User) : State :=
  match setup.thinkTime with
  | none => s.put { u with phase := .ready }
  | some pause =>
    if setup.holds (s.now + pause.ceilMillis) then
      s.put { u with phase := .thinking (setup.wakeTime s.now pause) }
    else (s.leave u (.crashed overflow)).log [User.crashNote s.users.length]

def settle (setup : Setup) (s : State) (u : User) : Option State :=
  match u.phase with
  | .calling push reply time =>
    if s.now < time then none
    else
      let s := s.log (setup.delivery.notes reply)
      match setup.delivery.settle push reply with
      | .crash message =>
        some ((s.leave u (.crashed message)).log [User.crashNote s.users.length])
      | .outcome o =>
        some (({ s with metrics := s.metrics.recordOutcome o }).proceed setup
          { u with iterations := u.iterations + 1, tally := u.tally.record o })
  | _ => none

def wake (s : State) (u : User) : Option State :=
  match u.phase with
  | .thinking time => if s.now < time then none else some (s.put { u with phase := .ready })
  | _ => none

def interrupt (s : State) (u : User) : Option State :=
  match u.phase with
  | .thinking _ =>
    -- Any setting is news, whatever its value.
    if s.channel.hasNews u.seen then
      some (s.put { u with phase := .ready, seen := s.channel.version })
    else none
  | _ => none

/-! ## All moves -/

def isQuietBefore (s : State) (time : Nat) : Bool :=
  s.users.all fun u =>
    match u.due? s.now s.channel with
    | some due => time ≤ due
    | none => true

def isOver (s : State) : Bool := s.users.all fun u => u.phase.isOver

def move? (setup : Setup) (s : State) : Move → Option State
  | .start i => s.users[i]?.bind s.start
  | .decide i => s.users[i]?.bind (s.decide setup)
  | .settle i => s.users[i]?.bind (s.settle setup)
  | .wake i => s.users[i]?.bind s.wake
  | .interrupt i => s.users[i]?.bind s.interrupt
  | .signal signal => some { s with channel := s.channel.apply signal }
  | .advance time =>
    -- Nobody who can move is passed over by time.
    if s.now < time ∧ s.isOver = false ∧ s.isQuietBefore time then some { s with now := time }
    else none

end State

end Volley.Run
