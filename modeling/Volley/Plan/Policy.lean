import Volley.Time

namespace Volley

inductive Policy
  | iterations (count : Nat)
  | duration (span : Span)
  deriving Repr, DecidableEq

def Policy.describe : Policy → String
  | .iterations count => s!"Iterations({count})"
  | .duration span => s!"Duration({span.describe})"

end Volley
