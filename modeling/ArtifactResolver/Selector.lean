import ArtifactResolver.Coordinate

/-!
# Selectors

A selector `group:name[:constraint]` asks for a version of a module without naming it: the
constraint says which versions will do, and the greatest of them is taken. A constraint is one
version, every version with a given start (`1.+`), or every version at all (`+` or `latest`).
-/

namespace ArtifactResolver

/-- Which versions of a module a request accepts. -/
inductive Constraint where
  /-- The version with exactly this text. -/
  | exact (version : String)
  /-- Every version that starts with this text. -/
  | startingWith (start : String)
  /-- Every version. -/
  | latest
deriving DecidableEq, Repr, Inhabited

namespace Constraint

/-- Whether the constraint needs a version listing to be resolved. -/
def isDynamic : Constraint → Bool
  | exact _ => false
  | startingWith _ => true
  | latest => true

/-- Whether the constraint accepts a version. -/
def accepts : Constraint → Version → Bool
  | exact version, v => v.text == version
  | startingWith start, v => start.toList.isPrefixOf v.text.toList
  | latest, _ => true

/-- The greatest of the given versions that the constraint accepts. -/
def select (c : Constraint) (versions : List Version) : Option Version :=
  Ascending.max? (versions.filter c.accepts)

/-- The texts that accept every version. -/
def latestNames : List (List Char) :=
  ["+".toList, "latest".toList, "latest.integration".toList, "latest.release".toList]

/-- Reads a constraint from text without blanks around it; the empty text is none. -/
def ofTrimmed? (cs : List Char) : Option Constraint :=
  if cs.isEmpty then none
  else if latestNames.contains cs then some latest
  else if cs.getLast? = some '+' then some (startingWith (String.ofList cs.dropLast))
  else some (exact (String.ofList cs))

/-- Reads a constraint; blanks around it are ignored. -/
def parse (text : String) : Except ParseError Constraint :=
  match ofTrimmed? (Text.trim text.toList) with
  | some c => .ok c
  | none => .error (.invalidSelector text)

/-- The written form of a constraint. -/
def display : Constraint → String
  | exact version => version
  | startingWith start => start ++ "+"
  | latest => "+"

end Constraint

/-- A requested module: its group and name, and the versions that will do. -/
structure Selector where
  /-- The organisation that publishes the module. -/
  group : String
  /-- The name of the module within its group. -/
  name : String
  /-- The versions that will do. -/
  constraint : Constraint
deriving DecidableEq, Repr, Inhabited

namespace Selector

/-- The written form `group:name:constraint`. -/
def display (s : Selector) : String := s!"{s.group}:{s.name}:{s.constraint.display}"

/-- The module without its constraint, as listings are spoken of. -/
def moduleName (s : Selector) : String := s!"{s.group}:{s.name}"

/-- The coordinate that the selector names, if its constraint is one version. -/
def toCoordinate? (s : Selector) : Option Coordinate :=
  match s.constraint with
  | .exact version => some ⟨s.group, s.name, version⟩
  | _ => none

/-- The coordinate of one version of the requested module. -/
def withVersion (s : Selector) (v : Version) : Coordinate := ⟨s.group, s.name, v.text⟩

/-- The selector that accepts the version of a coordinate and no other. -/
def ofCoordinate (c : Coordinate) : Selector := ⟨c.group, c.name, .exact c.version⟩

/-- Reads the written form: two fields, or three of which the last is a constraint. -/
def parse (text : String) : Except ParseError Selector :=
  match fields? text with
  | some [group, name] => .ok ⟨group, name, .latest⟩
  | some [group, name, constraint] => (Constraint.parse constraint).map (⟨group, name, ·⟩)
  | _ => .error (.invalidSelector text)

end Selector
end ArtifactResolver
