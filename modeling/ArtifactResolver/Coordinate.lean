import ArtifactResolver.Version
import ArtifactResolver.ParseError
import ArtifactResolver.Text.Blank

/-!
# Coordinates

A coordinate `group:name:version` names one version of one module. The text form is a sequence of
fields between colons; blanks around the whole text are ignored, and no field is empty or holds a
colon or an ASCII blank.
-/

namespace ArtifactResolver

/-- The name of one version of a module. -/
structure Coordinate where
  /-- The organisation that publishes the module. -/
  group : String
  /-- The name of the module within its group. -/
  name : String
  /-- The version as it is written. -/
  version : String
deriving DecidableEq, Repr, Inhabited

/-- A character that a field of a coordinate cannot hold. -/
def isFieldBoundary (c : Char) : Bool := c == ':' || Text.isAsciiBlank c

/-- Whether the characters can stand as a field. -/
def isField (cs : List Char) : Bool := !cs.isEmpty && cs.all fun c => !isFieldBoundary c

/-- The fields of a text: what stands between its colons, once the blanks around it are gone. None
if one of them cannot be a field. -/
def fields? (text : String) : Option (List String) :=
  let fields := (Text.trim text.toList).splitOn ':'
  if fields.all isField then some (fields.map String.ofList) else none

namespace Coordinate

/-- Coordinates compare by group, then name, then version, each as plain text. -/
instance : Ord Coordinate where
  compare := compareLex (compareOn (·.group)) (compareLex (compareOn (·.name))
    (compareOn (·.version)))

instance : Std.TransOrd Coordinate :=
  inferInstanceAs (Std.TransCmp (compareLex (compareOn group) (compareLex (compareOn name)
    (compareOn version))))

instance : Std.LawfulEqOrd Coordinate where
  compare_self := Std.ReflCmp.compare_self
  eq_of_compare {a b} h := by
    change (compare a.group b.group).then ((compare a.name b.name).then
      (compare a.version b.version)) = .eq at h
    simp only [Ordering.then_eq_eq, Std.LawfulEqOrd.compare_eq_iff_eq] at h
    cases a
    cases b
    simp_all

/-- The written form `group:name:version`. -/
def display (c : Coordinate) : String := s!"{c.group}:{c.name}:{c.version}"

/-- The version of the coordinate, as a version with its order. -/
def toVersion (c : Coordinate) : Version := ⟨c.version⟩

/-- Reads the written form: exactly three fields. -/
def parse (text : String) : Except ParseError Coordinate :=
  match fields? text with
  | some [group, name, version] => .ok ⟨group, name, version⟩
  | _ => .error (.invalidCoordinate text)

end Coordinate
end ArtifactResolver
