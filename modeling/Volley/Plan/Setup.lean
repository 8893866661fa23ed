import Volley.Plan.Basic
import Volley.Run.State

namespace Volley.Plan

def delivery (p : Plan) (recipe : Recipe) : Delivery where
  url := p.endpoint.render
  headers := p.headers
  expectedStatus := p.expectedStatus
  timeout := p.timeout
  recipe
  protocol := none

def setup (p : Plan) (delivery : Delivery) (transport : Run.Call → Reply)
    (daytime : Nat → Int64) (origin : Nat) : Run.Setup where
  delivery
  policy := p.policy
  thinkTime := p.thinkTime
  transport
  daytime
  origin

end Volley.Plan
