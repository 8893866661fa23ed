import Volley.Metrics
import Volley.Run.Delivery

namespace Volley

structure Driver (σ : Type) where
  words : WordSource
  peer : σ
  requests : List Request := []
  now : Nat := 0
  metrics : Option Metrics := none
  events : List Log.Event := []

namespace Driver

variable {σ α : Type}

abbrev Work (σ : Type) := StateT (Driver σ) Option

def draw (draw : Draw α) : Work σ α := fun driver => do
  let (a, words) ← draw driver.words
  return (a, { driver with words })

def post (transport : Request → StateM σ Reply) (request : Request) : Work σ Reply := fun driver =>
  let (reply, peer) := (transport request).run driver.peer
  some (reply, { driver with peer, requests := request :: driver.requests })

def pass (time : Nat) : Work σ Unit := modify fun driver => { driver with now := driver.now + time }

def log (events : List Log.Event) : Work σ Unit :=
  modify fun driver => { driver with events := events.reverse ++ driver.events }

def count (o : Outcome) : Work σ Unit :=
  modify fun driver => { driver with metrics := driver.metrics.map (·.recordOutcome o) }

end Driver

def Delivery.iterate {σ : Type} (d : Delivery) (daytime : Int64)
    (transport : Request → StateM σ Reply) : Driver.Work σ Settled := do
  match ← Driver.draw (d.recipe.compose daytime) with
  | .error message => return .crash message
  | .ok push =>
    let reply ← Driver.post transport (d.request push)
    Driver.log (d.openingNotes push reply)
    Driver.pass (d.length reply)
    Driver.log (d.notes reply)
    match d.settle push reply with
    | .outcome o =>
      Driver.count o
      return .outcome o
    | .crash message => return .crash message

end Volley
