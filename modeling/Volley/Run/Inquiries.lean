import Volley.Push.Recipe
import Volley.Run.Clock

/-!
The clock takes in at one stroke what a user was shown. Before that user gets its time, others may
make steps of theirs.
-/

namespace Volley

inductive Inquiry.Stage
  | asked
  /-- The clock has taken the reading in, and was `held` before. -/
  | taken (held : Clock)
  | answered (time : Int64)
  | composed (time : Int64) (push : Push)
  deriving Repr, DecidableEq

structure Inquiry where
  user : Nat
  reading : Int64
  stage : Inquiry.Stage := .asked
  deriving Repr, DecidableEq

namespace Inquiry

def answer? (q : Inquiry) : Option Int64 :=
  match q.stage with
  | .answered time => some time
  | .composed time _ => some time
  | _ => none

def push? (q : Inquiry) : Option Push :=
  match q.stage with
  | .composed _ push => some push
  | _ => none

end Inquiry

structure Inquiries where
  clock : Clock
  words : Nat → WordSource
  made : List Inquiry := []

namespace Inquiries

def start (words : Nat → WordSource) : Inquiries := { clock := .start, words }

inductive Move
  | ask (user : Nat) (reading : Int64)
  | take (inquiry : Nat)
  | answer (inquiry : Nat)
  | compose (inquiry : Nat)
  deriving Repr, DecidableEq

def ask (s : Inquiries) (user : Nat) (reading : Int64) : Option Inquiries :=
  if s.made.all fun q => q.user ≠ user || q.answer?.isSome then
    some { s with made := s.made ++ [{ user, reading }] }
  else none

def put (s : Inquiries) (i : Nat) (q : Inquiry) (stage : Inquiry.Stage) : Inquiries :=
  { s with made := s.made.set i { q with stage } }

def take (s : Inquiries) (i : Nat) : Option Inquiries := do
  let q ← s.made[i]?
  match q.stage with
  | .asked => some { s.put i q (.taken s.clock) with clock := (s.clock.read q.reading).2 }
  | _ => none

def answer (s : Inquiries) (i : Nat) : Option Inquiries := do
  let q ← s.made[i]?
  match q.stage with
  | .taken held => some (s.put i q (.answered (held.read q.reading).1))
  | _ => none

def compose (recipe : Recipe) (s : Inquiries) (i : Nat) : Option Inquiries := do
  let q ← s.made[i]?
  match q.stage with
  | .answered time =>
    match ← recipe.compose time (s.words q.user) with
    | (.ok push, rest) =>
      return { s.put i q (.composed time push) with
        words := fun user => if user = q.user then rest else s.words user }
    | (.error _, _) => none
  | _ => none

def move? (recipe : Recipe) (s : Inquiries) : Move → Option Inquiries
  | .ask user reading => s.ask user reading
  | .take i => s.take i
  | .answer i => s.answer i
  | .compose i => s.compose recipe i

def after? (recipe : Recipe) (s : Inquiries) (moves : List Move) : Option Inquiries :=
  moves.foldlM (move? recipe) s

def pushesOf (s : Inquiries) (user : Nat) : List Push :=
  (s.made.filter (·.user = user)).filterMap (·.push?)

end Inquiries

end Volley
