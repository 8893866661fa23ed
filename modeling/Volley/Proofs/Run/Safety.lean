import Volley.Plan.Setup
import Volley.Proofs.Plan.Basic
import Volley.Proofs.Push.Recipe
import Volley.Proofs.Run.Ledger
import Volley.Proofs.Time

namespace Volley

namespace Run

variable {setup : Setup} {start last : State} {moves : List Move} {count : Nat}
  {words : Nat → WordSource}

end Run

end Volley
