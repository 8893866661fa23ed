
namespace Volley.Path

def join (base more : String) : String :=
  if more.toList.head? = some '/' ∨ base.isEmpty then more
  else if base.toList.getLast? = some '/' then base ++ more
  else base ++ "/" ++ more

def namesFrom (name : List Char) : List Char → List String
  | [] => [String.ofList name.reverse]
  | c :: rest =>
    if c = '/' then String.ofList name.reverse :: namesFrom [] rest
    else namesFrom (c :: name) rest

def names (path : String) : List String := namesFrom [] path.toList

def isAbsolute (path : String) : Bool := path.toList.head? = some '/'

/-- Drops slashes and single points at the end of a path, which is given backwards. A point that
is the whole path stays, and so does a slash at the root. -/
def trimBack : List Char → List Char
  | '/' :: [] => ['/']
  | '/' :: rest => trimBack rest
  | '.' :: '/' :: [] => ['/']
  | '.' :: '/' :: rest => trimBack rest
  | cs => cs

def parent (path : String) : String :=
  let trimmed := trimBack path.toList.reverse
  String.ofList (trimBack (trimmed.dropWhile (· ≠ '/'))).reverse

def extension? (name : String) : Option String :=
  let backwards := name.toList.reverse
  match backwards.dropWhile (· ≠ '.') with
  | '.' :: _ :: _ => some (String.ofList (backwards.takeWhile (· ≠ '.')).reverse)
  | _ => none

def isToml (name : String) : Bool :=
  match extension? name with
  | some extension => extension.toLower = "toml"
  | none => false

end Volley.Path
