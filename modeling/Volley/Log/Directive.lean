import Volley.Log.Event
import Volley.Text.Blank
import Volley.Text.Integer

/-!
A directive is written `part[scope{field=value}]=level`. All but one of the parts may be left out.
-/

namespace Volley.Log

/-- The most verbose level that is let through, if any is. -/
abbrev Threshold := Option Level

namespace Threshold

def admits (threshold : Threshold) (level : Level) : Bool := threshold.any (level.rank ≤ ·.rank)

def join (a b : Threshold) : Threshold :=
  match a, b with
  | none, b => b
  | a, none => a
  | some a, some b => if a.rank < b.rank then some b else some a

def ofRank? (rank : Nat) : Option Threshold :=
  if rank = 0 then some none else (Level.all.find? (·.rank = rank)).map some

def ofName? (name : String) : Option Threshold :=
  let name := name.toUpper
  if name = "OFF" then some none else (Level.all.find? (·.name = name)).map some

def parse? (text : String) : Option Threshold :=
  ((Integer.unsigned? (2 ^ 64) text).bind ofRank?).or (ofName? text)

end Threshold

structure FieldDemand where
  name : String
  value : Option String
  deriving Repr, DecidableEq

structure Directive where
  threshold : Threshold
  target : Option String := none
  scope : Option String := none
  fields : List FieldDemand := []
  deriving Repr, DecidableEq

namespace Directive

def verbose : Threshold := some .trace

def startsWell (c : Char) : Bool :=
  c.isAlphanum || c = '-' || c = ':' || c = '_' || 128 ≤ c.toNat

def readLevel (text : List Char) : Option Threshold :=
  if text = [] then some verbose else Threshold.parse? (String.ofList text)

def readField (text : String) : Option FieldDemand :=
  if text.isEmpty then none
  else
    match text.splitOn "=" with
    | name :: value :: _ => some ⟨name, some value⟩
    | _ => some ⟨text, none⟩

def cut (text : List Char) (start stop : Nat) : String :=
  String.ofList ((text.drop start).take (stop - start))

def readRest (text core : List Char) (place : Nat) : Option Threshold :=
  match core.drop place with
  | [] => some verbose
  | '=' :: _ => readLevel (text.drop (place + 1))
  | _ => none

def readScope (text core : List Char) (target : Option String) (place : Nat) : Option Directive :=
  let stop := place + ((core.drop place).takeWhile fun c => c ≠ ']' && c ≠ '{').length
  match core[stop]? with
  | some ']' => do
    return {
      threshold := ← readRest text core (stop + 1)
      target
      scope := some (cut text place stop) }
  | some '{' =>
    let close := stop + 1 + ((core.drop (stop + 1)).takeWhile (· ≠ '}')).length
    if (core.drop close).take 2 = ['}', ']'] then do
      return {
        threshold := ← readRest text core (close + 2)
        target
        scope := if cut text place stop = "" then none else some (cut text place stop)
        fields := ← ((cut text (stop + 1) close).splitOn ",").mapM readField }
    else none
  | _ => none

/-- Reads a directive. Its parts are found in the text without the blanks around it, and are cut
out of the text with those blanks at the same places. -/
def parse? (directive : String) : Option Directive :=
  let text := directive.toList
  let core := Blank.trimChars text
  let stop := (core.takeWhile fun c => c ≠ '=' && c ≠ '[').length
  let target := cut text 0 stop
  match core with
  | [] => none
  | '[' :: _ => readScope text core none 1
  | c :: _ =>
    if !startsWell c then none
    else
      match core[stop]? with
      | none =>
        -- A text without signs is a level, or else the start of a name with all levels.
        match Threshold.parse? directive with
        | some threshold => some { threshold }
        | none => some { threshold := verbose, target := some directive }
      | some '[' => readScope text core (some target) (stop + 1)
      | some _ => do
        return { threshold := ← readLevel (text.drop (stop + 1)), target := some target }

def parseList? (text : String) : Option (List Directive) :=
  ((text.splitOn ",").filter (!·.isEmpty)).mapM parse?

end Directive

end Volley.Log
