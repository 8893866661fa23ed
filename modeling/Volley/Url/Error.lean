
namespace Volley.Url

inductive Error
  | emptyHost
  | domain
  | domainCharacter
  | port
  | ipv4
  | ipv6
  | relative
  | relativeToOpaque
  deriving Repr, DecidableEq

def Error.message : Error → String
  | .emptyHost => "empty host"
  | .domain => "invalid international domain name"
  | .domainCharacter => "invalid domain character"
  | .port => "invalid port number"
  | .ipv4 => "invalid IPv4 address"
  | .ipv6 => "invalid IPv6 address"
  | .relative => "relative URL without a base"
  | .relativeToOpaque => "relative URL with a cannot-be-a-base base"

end Volley.Url
