/-! A listener notices that the channel was set since it last looked, whatever the value. -/

namespace Volley

inductive Signal
  | send (value : Bool)
  | close
  deriving Repr, DecidableEq

structure Channel where
  value : Bool := false
  version : Nat := 0
  isOpen : Bool := true
  deriving Repr, DecidableEq

namespace Channel

def apply (c : Channel) : Signal → Channel
  | .send value => if c.isOpen then { c with value, version := c.version + 1 } else c
  | .close => { c with isOpen := false }

def hasNews (c : Channel) (seen : Nat) : Bool := c.version ≠ seen

theorem apply_of_closed {c : Channel} (closed : c.isOpen = false) (signal : Signal) :
    c.apply signal = c := by
  cases signal with
  | send value => simp [apply, closed]
  | close => simp [apply, ← closed]

end Channel

end Volley
