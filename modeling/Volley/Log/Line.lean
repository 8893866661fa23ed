import Volley.Json.Basic
import Volley.Log.Event
import Volley.Settings.Basic
import Volley.Text.Quoted

namespace Volley.Log

structure Stamp where
  time : String
  thread : String
  file : String
  line : String
  deriving Repr, DecidableEq

namespace Value

def shown : Value → String
  | .quoted text => Quoted.render text
  | value => value.text

def toJson : Value → Json
  | .plain text => .text text
  | .quoted text => .text text
  | .number value => .number (.whole value)
  | .flag value => .boolean value

end Value

def fieldsText (fields : List (String × Value)) : String :=
  String.intercalate " " (fields.map fun (name, value) => name ++ "=" ++ value.shown)

def Scope.text (s : Scope) : String :=
  s.name ++ if s.fields.isEmpty then ":" else "\x7b" ++ fieldsText s.fields ++ "\x7d:"

def Level.padded (level : Level) : String :=
  String.ofList (List.replicate (5 - level.name.length) ' ') ++ level.name

def placeText (style : Logging) (stamp : Stamp) : String :=
  (if style.withFile then stamp.file ++ ":" else "") ++
    (if style.withLineNumber then stamp.line ++ ":" else "") ++
      if style.withFile || style.withLineNumber then " " else ""

def Event.text (style : Logging) (stamp : Stamp) (e : Event) : String :=
  stamp.time ++ " " ++ e.level.padded ++ " " ++
    (if style.withThreadIds then stamp.thread ++ " " else "") ++
    String.join (e.scopes.map Scope.text) ++ (if e.scopes.isEmpty then "" else " ") ++
    (if style.withTarget then e.source ++ ": " else "") ++ placeText style stamp ++
    String.intercalate " " (e.message :: if e.fields.isEmpty then [] else [fieldsText e.fields])

def fieldsJson (fields : List (String × Value)) : List (String × Json) :=
  fields.map fun (name, value) => (name, value.toJson)

def Scope.toJson (s : Scope) : Json := .object (fieldsJson s.fields ++ [("name", .text s.name)])

def memberIf (condition : Bool) (name : String) (value : Json) : List (String × Json) :=
  if condition then [(name, value)] else []

def Event.toJson (style : Logging) (stamp : Stamp) (e : Event) : Json := .object <|
  [("timestamp", .text stamp.time), ("level", .text e.level.name),
    ("fields", .object (("message", .text e.message) :: fieldsJson e.fields))] ++
  memberIf style.withTarget "target" (.text e.source) ++
  memberIf style.withFile "filename" (.text stamp.file) ++
  memberIf style.withLineNumber "line_number" (.text stamp.line) ++
  (match e.scopes.getLast? with
    | some s => [("span", s.toJson), ("spans", .array (e.scopes.map Scope.toJson))]
    | none => []) ++
  memberIf style.withThreadIds "threadId" (.text stamp.thread)

def Event.line (style : Logging) (stamp : Stamp) (e : Event) : String :=
  match style.format with
  | .text => e.text style stamp
  | .json => (e.toJson style stamp).render

end Volley.Log
