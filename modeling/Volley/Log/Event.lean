
namespace Volley.Log

inductive Level
  | error
  | warn
  | info
  | debug
  | trace
  deriving Repr, DecidableEq

namespace Level

def all : List Level := [.error, .warn, .info, .debug, .trace]

def rank : Level → Nat
  | .error => 1
  | .warn => 2
  | .info => 3
  | .debug => 4
  | .trace => 5

def name : Level → String
  | .error => "ERROR"
  | .warn => "WARN"
  | .info => "INFO"
  | .debug => "DEBUG"
  | .trace => "TRACE"

end Level

inductive Value
  | plain (text : String)
  | quoted (text : String)
  | number (value : Int)
  | flag (value : Bool)
  deriving Repr, DecidableEq

def Value.text : Value → String
  | .plain text => text
  | .quoted text => text
  | .number value => toString value
  | .flag value => if value then "true" else "false"

structure Scope where
  level : Level
  source : String
  name : String
  fields : List (String × Value)
  deriving Repr, DecidableEq

structure Event where
  level : Level
  source : String
  message : String
  fields : List (String × Value) := []
  scopes : List Scope := []
  deriving Repr, DecidableEq

end Volley.Log
