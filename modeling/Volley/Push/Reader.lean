import Volley.Json.Reader
import Volley.Push.Request

/-! A text is read from left to right, and the first fault decides. A list of the seven values is
accepted in place of an object. -/

namespace Volley.Push

open Json

structure Parts where
  contentId : Option String
  content : Option String
  timestamp : Option Int64
  kind : Option PushKind
  sender : Option String
  recipients : Option (List String)
  expiry : Option String

def Parts.empty : Parts := ⟨none, none, none, none, none, none, none⟩

def required {α : Type} (name : String) : Option α → Except Json.Error α
  | some value => .ok value
  | none => .error (.shape (.missingField name))

def Parts.finish (p : Parts) : Except Json.Error Push := do
  return {
    contentId := ← required "content_id" p.contentId
    content := ← required "content" p.content
    timestamp := ← required "timestamp" p.timestamp
    kind := ← required "push_type" p.kind
    sender := ← required "from_user_id" p.sender
    recipients := ← required "to_user_ids" p.recipients
    expiry := ← required "expire_time" p.expiry }

def Parts.has (p : Parts) : String → Bool
  | "content_id" => p.contentId.isSome
  | "content" => p.content.isSome
  | "timestamp" => p.timestamp.isSome
  | "push_type" => p.kind.isSome
  | "from_user_id" => p.sender.isSome
  | "to_user_ids" => p.recipients.isSome
  | "expire_time" => p.expiry.isSome
  | _ => false

def expectation : String := "struct PushRequest"

def lengthMismatch (count : Nat) : Json.Error :=
  .shape (.length count "struct PushRequest with 7 elements")

def timestampOf : Json.Number → Except Json.Error Int64
  | .whole n =>
    if n < 2 ^ 63 then .ok (Int64.ofInt n) else .error (.shape (.value (.integer n) "i64"))
  | .fraction x => .error (.shape (.type (.fraction (.ofFloat x)) "i64"))

def kindOf (text : String) : Except Json.Error PushKind :=
  match PushKind.ofText? text with
  | some kind => .ok kind
  | none => .error (.shape (.variant text (PushKind.all.map PushKind.text)))

/-! ## From a text -/

namespace Scan

open Json.Scan

def mismatch {α : Type} (expected : String) : Json.Scan α := do
  let wrong (found : Found) : Json.Scan α := fail (.shape (.type found expected))
  match ← peek with
  | none => fail .ends
  | some 'n' => skip; name ['u', 'l', 'l']; wrong .null
  | some 't' => skip; name ['r', 'u', 'e']; wrong (.boolean true)
  | some 'f' => skip; name ['a', 'l', 's', 'e']; wrong (.boolean false)
  | some '"' => skip; wrong (.text (← stringRest))
  | some '[' => wrong .sequence
  | some '\x7b' => wrong .map
  | some c =>
    if c = '-' ∨ c.isDigit then wrong (Json.number (← number)).found else fail .malformed

def lift {α : Type} (result : Except Json.Error α) : Json.Scan α := fun cs =>
  result.map (·, cs)

def text : Json.Scan String := do
  match ← peek with
  | some '"' => skip; stringRest
  | _ => mismatch "a string"

def timestamp : Json.Scan Int64 := do
  match ← peek with
  | some c =>
    if c = '-' ∨ c.isDigit then lift (timestampOf (← number)) else mismatch "i64"
  | none => fail .ends

def kind : Json.Scan PushKind := do
  match ← peek with
  | some '"' => skip; lift (kindOf (← stringRest))
  | some '\x7b' =>
    skip
    let kind ← match ← peek with
      | some '"' => skip; lift (kindOf (← stringRest))
      | _ => mismatch "variant identifier"
    punctuation ':'
    match ← peek with
    | some 'n' => skip; name ['u', 'l', 'l']
    | _ => mismatch "unit"
    punctuation '\x7d'
    return kind
  | next => fail (unexpected next)

def texts (first : Bool) : Nat → Json.Scan (List String)
  | 0 => fail .malformed
  | fuel + 1 => do
    if ← moreItems first then
      let item ← text
      return item :: (← texts false fuel)
    else
      skip
      return []

def recipients (fuel : Nat) : Json.Scan (List String) := do
  match ← peek with
  | some '[' => skip; texts true fuel
  | _ => mismatch "a sequence"

def member (fuel : Nat) (p : Parts) : String → Json.Scan Parts
  | "content_id" => return { p with contentId := some (← text) }
  | "content" => return { p with content := some (← text) }
  | "timestamp" => return { p with timestamp := some (← timestamp) }
  | "push_type" => return { p with kind := some (← kind) }
  | "from_user_id" => return { p with sender := some (← text) }
  | "to_user_ids" => return { p with recipients := some (← recipients fuel) }
  | "expire_time" => return { p with expiry := some (← text) }
  | _ => do
    skipValue fuel
    return p

def members (first : Bool) (p : Parts) : Nat → Json.Scan Parts
  | 0 => fail .malformed
  | fuel + 1 => do
    if ← moreMembers first then
      skip
      let name ← stringRest
      if p.has name then fail (.shape (.duplicateField name))
      punctuation ':'
      let p ← member fuel p name
      members false p fuel
    else return p

def item {α : Type} (count : Nat) (scan : Json.Scan α) : Json.Scan α := do
  if ← moreItems (count = 0) then scan else fail (lengthMismatch count)

def push (fuel : Nat) : Json.Scan Push := do
  match ← peek with
  | some '\x7b' =>
    skip
    let p ← members true .empty fuel
    let push ← lift p.finish
    skip
    return push
  | some '[' =>
    skip
    let push : Push := {
      contentId := ← item 0 text
      content := ← item 1 text
      timestamp := ← item 2 timestamp
      kind := ← item 3 kind
      sender := ← item 4 text
      recipients := ← item 5 (recipients fuel)
      expiry := ← item 6 text }
    punctuation ']'
    return push
  | _ => mismatch expectation

end Scan

def parse (text : String) : Except Json.Error Push :=
  Json.Scan.whole (Scan.push (Json.Scan.fuelFor text)) text

/-! ## From a value -/

/-- The members of an object in the order of their names; of a repeated name the last one
counts. -/
def sortedMembers (members : List (String × Json)) : List (String × Json) :=
  let last := members.foldl
    (fun seen (name, value) => (name, value) :: seen.filter (·.1 ≠ name)) []
  last.mergeSort fun a b => a.1 < b.1 || a.1 == b.1

def textOf : Json → Except Json.Error String
  | .text t => .ok t
  | value => .error (.shape (.type value.found "a string"))

def timestampOfJson : Json → Except Json.Error Int64
  | .number n => timestampOf n
  | value => .error (.shape (.type value.found "i64"))

def kindOfJson : Json → Except Json.Error PushKind
  | .text t => kindOf t
  | .object members =>
    match sortedMembers members with
    | [(name, value)] => do
      let kind ← kindOf name
      match value with
      | .null => .ok kind
      | value => .error (.shape (.type value.found "unit"))
    | _ => .error (.shape (.value .map "map with a single key"))
  | value => .error (.shape (.type value.found "string or map"))

def recipientsOf : Json → Except Json.Error (List String)
  | .array items => items.mapM textOf
  | value => .error (.shape (.type value.found "a sequence"))

def memberOf (p : Parts) (value : Json) : String → Except Json.Error Parts
  | "content_id" => return { p with contentId := some (← textOf value) }
  | "content" => return { p with content := some (← textOf value) }
  | "timestamp" => return { p with timestamp := some (← timestampOfJson value) }
  | "push_type" => return { p with kind := some (← kindOfJson value) }
  | "from_user_id" => return { p with sender := some (← textOf value) }
  | "to_user_ids" => return { p with recipients := some (← recipientsOf value) }
  | "expire_time" => return { p with expiry := some (← textOf value) }
  | _ => .ok p

def ofJson : Json → Except Json.Error Push
  | .object members => do
    let p ← (sortedMembers members).foldlM (fun p (name, value) => memberOf p value name)
      Parts.empty
    p.finish
  | .array items => do
    let item {α : Type} (count : Nat) (read : Json → Except Json.Error α) :
        Except Json.Error α :=
      match items[count]? with
      | some value => read value
      | none => .error (lengthMismatch count)
    let push : Push := {
      contentId := ← item 0 textOf
      content := ← item 1 textOf
      timestamp := ← item 2 timestampOfJson
      kind := ← item 3 kindOfJson
      sender := ← item 4 textOf
      recipients := ← item 5 recipientsOf
      expiry := ← item 6 textOf }
    if 7 < items.length then
      .error (.shape (.length items.length "fewer elements in array"))
    else .ok push
  | value => .error (.shape (.type value.found expectation))

end Volley.Push
