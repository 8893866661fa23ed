import Volley.Url.Basic

/-!
A text with a scheme of its own takes nothing from the base, unless that has the same scheme and no
two slashes follow.
-/

namespace Volley.Url

/-- The characters of a text that count: none of the controls and spaces at its ends, and no
tabs and ends of lines. -/
def significant (text : String) : List Char :=
  let isEdge (c : Char) : Bool := c.toNat ≤ 0x20
  let cs := ((text.toList.dropWhile isEdge).reverse.dropWhile isEdge).reverse
  cs.filter fun c => c ≠ '\t' ∧ c ≠ '\n' ∧ c ≠ '\r'

def isSchemeChar (c : Char) : Bool := c.isAlphanum || c = '+' || c = '-' || c = '.'

def scheme? (cs : List Char) : Option (String × List Char) :=
  match cs with
  | [] => none
  | c :: _ =>
    if !c.isAlpha then none
    else
      let name := cs.takeWhile isSchemeChar
      match cs.drop name.length with
      | ':' :: rest => some (String.ofList (name.map Char.toLower), rest)
      | _ => none

def endsAuthority (special : Bool) (c : Char) : Bool :=
  c = '/' || c = '?' || c = '#' || (special && c = '\\')

def isSlash (special : Bool) (c : Char) : Bool := c = '/' || (special && c = '\\')

/-! ## Query and fragment -/

def tail (special : Bool) (cs : List Char) : Option String × Option String :=
  let fragmentOf (cs : List Char) : Option String :=
    match cs with
    | '#' :: rest => some (encode inFragment rest)
    | _ => none
  match cs with
  | '?' :: rest =>
    let query := rest.takeWhile (· ≠ '#')
    (some (encode (inQuery special) query), fragmentOf (rest.drop query.length))
  | cs => (none, fragmentOf cs)

def beforeTail (cs : List Char) : List Char × List Char :=
  cs.span fun c => c ≠ '?' ∧ c ≠ '#'

/-! ## Paths -/

def pieces (special : Bool) (cs : List Char) : List (List Char) :=
  split '/' (cs.map fun c => if isSlash special c then '/' else c)

def isSingleDot (segment : String) : Bool := segment ∈ [".", "%2e", "%2E"]

def isDoubleDot (segment : String) : Bool :=
  segment ∈ ["..", "%2e%2e", "%2e%2E", "%2E%2e", "%2E%2E", "%2e.", "%2E.", ".%2e", ".%2E"]

def isDrive (segment : String) : Bool :=
  match segment.toList with
  | [letter, mark] => letter.isAlpha && (mark = ':' || mark = '|')
  | _ => false

def dropSegment (segments : List String) : List String :=
  if segments.getLast?.any isDrive then segments else segments.dropLast

def driveWithColon (kind : SchemeKind) (segments : List String) (segment : String) : String :=
  if kind = .file ∧ segments.isEmpty ∧ isDrive segment then
    String.ofList (segment.toList.take 1 ++ [':'])
  else segment

/-- Goes from segments along the parts of a path. A part of one point stays, one of two points
goes back; at the end both leave an empty segment. -/
def follow (kind : SchemeKind) (segments : List String) : List (List Char) → List String
  | [] => segments
  | piece :: rest =>
    let segment := encode inPath piece
    if isDoubleDot segment then
      let shorter := dropSegment segments
      if rest.isEmpty then shorter ++ [""] else follow kind shorter rest
    else if isSingleDot segment then
      if rest.isEmpty then segments ++ [""] else follow kind segments rest
    else follow kind (segments ++ [driveWithColon kind segments segment]) rest

def settle (kind : SchemeKind) (segments : List String) : List String :=
  if kind = .file then
    let rest := segments.dropWhile (·.isEmpty)
    if rest.isEmpty then [""] else rest
  else segments

def walk (kind : SchemeKind) (segments : List String) (cs : List Char) : List String :=
  settle kind (follow kind segments (pieces kind.isSpecial cs))

def afterAuthority (kind : SchemeKind) (cs : List Char) : List String :=
  match cs with
  | [] => if kind.isSpecial then [""] else []
  | c :: rest => walk kind [] (if isSlash kind.isSpecial c then rest else c :: rest)

/-! ## Authorities -/

def credentials (cs : List Char) : String × String :=
  let user := cs.takeWhile (· ≠ ':')
  (encode inUser user, encode inUser (cs.drop (user.length + 1)))

def splitUser (special : Bool) (cs : List Char) : Option (List Char) × List Char :=
  let authority := cs.takeWhile fun c => !endsAuthority special c
  if authority.contains '@' then
    let host := (authority.reverse.takeWhile (· ≠ '@')).length
    let user := authority.take (authority.length - host - 1)
    (some user, cs.drop (user.length + 1))
  else (none, cs)

def hostChars (special inside : Bool) : List Char → List Char
  | [] => []
  | c :: rest =>
    -- A colon between brackets belongs to the host.
    if c = ':' ∧ !inside then []
    else if endsAuthority special c then []
    else c :: hostChars special ((inside || c = '[') && c ≠ ']') rest

def port (scheme : String) (cs : List Char) : Except Error (Option Nat × List Char) :=
  let digits := cs.takeWhile Char.isDigit
  let rest := cs.drop digits.length
  let n := digits.foldl (fun n d => n * 10 + (d.toNat - 48)) 0
  if 65535 < n ∨ rest.head?.any (fun c => !endsAuthority true c) then .error .port
  else
    -- A port that the scheme implies does not show.
    let shown := if digits.isEmpty ∨ defaultPort? scheme = some n then none else some n
    .ok (shown, rest)

def readAuthority (idna : Idna) (scheme : String) (cs : List Char) :
    Except Error (Authority × List Char) := do
  let special := (SchemeKind.of scheme).isSpecial
  let (userChars?, cs) := splitUser special cs
  if userChars? = some [] ∧ cs.head?.any (endsAuthority special) then throw .emptyHost
  let (user, password) := credentials (userChars?.getD [])
  let chars := hostChars special false cs
  let rest := cs.drop chars.length
  if special ∧ chars.isEmpty then throw .emptyHost
  let host ← if special then (Host.parse idna chars).map some else Host.parseOpaque chars
  if host.isNone ∧ rest.head? = some ':' then throw .emptyHost
  let (port, rest) ← match rest with
    | ':' :: more => port scheme more
    | rest => .ok (none, rest)
  let a : Authority := ⟨user, password, host, port⟩
  if host.isNone ∧ !a.credentials.isEmpty then throw .emptyHost
  return (a, rest)

def withAuthority (idna : Idna) (scheme : String) (cs : List Char) : Except Error Url := do
  let kind := SchemeKind.of scheme
  let (a, rest) ← readAuthority idna scheme cs
  let (path, rest) := beforeTail rest
  let (query, fragment) := tail kind.isSpecial rest
  return ⟨scheme, some a, .segments (afterAuthority kind path), query, fragment⟩

/-! ## Schemes -/

/-- The host of a file, and what follows it. A drive is no host, and neither is `localhost`. -/
def fileHost (idna : Idna) (cs : List Char) : Except Error (Option Host × List Char) :=
  let chars := cs.takeWhile fun c => !endsAuthority true c
  if isDrive (String.ofList chars) then .ok (none, cs)
  else if chars.isEmpty then .ok (none, cs)
  else do
    let host ← Host.parse idna chars
    return (if host = .name "localhost" then none else some host, cs.drop chars.length)

def file (idna : Idna) (cs : List Char) : Except Error Url := do
  let (host, rest) ← match cs with
    | a :: b :: rest =>
      if isSlash true a ∧ isSlash true b then fileHost idna rest else .ok (none, cs)
    | cs => .ok (none, cs)
  let (path, rest) := beforeTail rest
  let (query, fragment) := tail true rest
  let segments := afterAuthority .file path
  -- A drive takes the place of a host.
  let host := if segments.head?.any isDrive then none else host
  return ⟨"file", some { host }, .segments segments, query, fragment⟩

def other (idna : Idna) (scheme : String) (cs : List Char) : Except Error Url :=
  match cs with
  | '/' :: '/' :: rest => withAuthority idna scheme rest
  | cs =>
    let (path, rest) := beforeTail cs
    let (query, fragment) := tail false rest
    let path := match path with
      | '/' :: more => Path.segments (walk .other [] more)
      | path => .opaquePath (encode isControl path)
    .ok ⟨scheme, none, path, query, fragment⟩

def absolute (idna : Idna) (scheme : String) (cs : List Char) : Except Error Url :=
  match SchemeKind.of scheme with
  | .file => file idna cs
  | .special => withAuthority idna scheme (cs.dropWhile (isSlash true))
  | .other => other idna scheme cs

/-! ## Relative texts -/

def segmentsOf (u : Url) : List String :=
  match u.path with
  | .segments names => names
  | .opaquePath _ => []

def relative (idna : Idna) (base : Url) (cs : List Char) : Except Error Url :=
  let kind := SchemeKind.of base.scheme
  let special := kind.isSpecial
  let (path, rest) := beforeTail cs
  let (query, fragment) := tail special rest
  let located (segments : List String) : Url :=
    { base with path := .segments segments, query, fragment }
  match path with
  | [] =>
    match query with
    | some _ => .ok { base with query, fragment }
    | none => .ok { base with fragment }
  | c :: more =>
    if isSlash special c then
      match path with
      | '/' :: '/' :: _ => withAuthority idna base.scheme (cs.drop 2)
      | _ :: d :: _ =>
        if isSlash special d then
          withAuthority idna base.scheme (cs.dropWhile (isSlash special))
        else .ok (located (walk kind [] more))
      | _ => .ok (located (walk kind [] more))
    else .ok (located (walk kind base.segmentsOf.dropLast path))

def read (idna : Idna) (base : Option Url) (text : String) : Except Error Url :=
  let cs := significant text
  match scheme? cs, base with
  | some (scheme, rest), none => absolute idna scheme rest
  | some (scheme, rest), some base =>
    let slashes := (rest.takeWhile (isSlash true)).length
    -- A text that repeats the scheme of the base may still be relative.
    if SchemeKind.of scheme = .special ∧ scheme = base.scheme ∧ slashes < 2 then
      relative idna base rest
    else absolute idna scheme rest
  | none, none => .error .relative
  | none, some base =>
    if cs.head? = some '#' ∨ !base.isOpaque then relative idna base cs
    else .error .relativeToOpaque

def parse (idna : Idna) (text : String) : Except Error Url := read idna none text

def join (idna : Idna) (base : Url) (text : String) : Except Error Url :=
  read idna (some base) text

end Volley.Url
