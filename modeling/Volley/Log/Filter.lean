import Volley.Log.Directive

/-! Of the directives that concern a part of the program, the closest one decides. -/

namespace Volley.Log

namespace Directive

/-- The order of directives by how closely they describe what they apply to: by the length of the
start of the name, then by the number of fields, then by both as texts. -/
def closeness (d e : Directive) : Ordering :=
  (compare (d.target.map String.utf8ByteSize) (e.target.map String.utf8ByteSize)).then <|
    (compare d.fields.length e.fields.length).then <|
      (compare d.target e.target).then
        (compare (d.fields.map FieldDemand.name) (e.fields.map FieldDemand.name))

def isOpen (d : Directive) : Bool := d.scope.isNone && d.fields.all (·.value.isNone)

def watchesScopes (d : Directive) : Bool := d.scope.isSome || !d.fields.isEmpty

def concerns (d : Directive) (source : String) : Bool := d.target.all (source.startsWith ·)

def findsFields (d : Directive) (names : List String) : Bool :=
  d.fields.all fun demand => demand.name ∈ names

def watches (d : Directive) (s : Scope) : Bool :=
  d.watchesScopes && d.concerns s.source && d.scope.all (· = s.name) &&
    d.findsFields (s.fields.map Prod.fst)

def holdsIn (d : Directive) (s : Scope) : Bool :=
  d.fields.all fun demand =>
    match demand.value, s.fields.lookup demand.name with
    | some value, some found => found.text = value
    | none, _ => true
    | some _, none => false

end Directive

structure Filter where
  directives : List Directive
  deriving Repr, DecidableEq

namespace Filter

def upTo (threshold : Threshold) : Filter := ⟨[{ threshold }]⟩

def parse? (text : String) : Option Filter := (Directive.parseList? text).map Filter.mk

def closest (directives : List Directive) : Option Directive :=
  directives.foldl (fun best d =>
    match best with
    -- Of equally close directives the later one counts.
    | some b => if d.closeness b = .lt then best else some d
    | none => some d) none

def threshold (f : Filter) (source : String) (names : Option (List String)) : Threshold :=
  (closest (f.directives.filter fun d =>
    d.isOpen && d.concerns source && names.all d.findsFields)).bind (·.threshold)

structure Inside where
  entered : List Scope := []
  threshold : Threshold := none
  deriving Repr, DecidableEq

def enter (f : Filter) (inside : Inside) (s : Scope) : Inside :=
  match f.directives.filter (·.watches s) with
  | [] =>
    if inside.threshold.admits s.level || (f.threshold s.source none).admits s.level then
      { inside with entered := inside.entered ++ [s] }
    else inside
  -- A scope that is watched lets events through wherever they come from.
  | watchers =>
    { entered := inside.entered ++ [s]
      threshold := (watchers.filter (·.holdsIn s)).foldl (fun t d => t.join d.threshold)
        inside.threshold }

def inside (f : Filter) (scopes : List Scope) : Inside := scopes.foldl f.enter {}

def allows (f : Filter) (level : Level) (source : String) (scopes : List Scope) : Bool :=
  (f.inside scopes).threshold.admits level || (f.threshold source none).admits level

def admits (f : Filter) (e : Event) : Bool :=
  (f.inside e.scopes).threshold.admits e.level ||
    (f.threshold e.source (some ("message" :: e.fields.map Prod.fst))).admits e.level

end Filter

end Volley.Log
