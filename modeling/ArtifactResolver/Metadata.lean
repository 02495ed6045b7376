import ArtifactResolver.Artifact
import ArtifactResolver.Selector

/-!
# Module metadata

What a module version says about itself: its status, the extension of its files, and its
configurations. A configuration has artifacts of its own and those of every configuration that it
extends, directly or through others; the extensions of a module may form cycles and may name
configurations that do not exist, so inheritance is a search and not a recursion on the metadata.
-/

namespace ArtifactResolver

/-- A named set of artifacts and dependencies of a module. -/
structure Configuration where
  /-- The name of the configuration. -/
  name : String
  /-- What the configuration is for. -/
  description : Option String := none
  /-- Whether other modules may refer to the configuration. -/
  visible : Bool := true
  /-- Whether the dependencies of its dependencies count. -/
  transitive : Bool := true
  /-- The configurations whose artifacts this one inherits, as they are listed. -/
  parents : List String := []
  /-- The artifacts of its own, in ascending order. -/
  artifacts : List Artifact := []
  /-- The modules that it depends on, as they are listed. -/
  dependencies : List Selector := []
deriving DecidableEq, Repr

/-- What one module version says about itself. -/
structure Metadata where
  /-- The module version. -/
  coordinate : Coordinate
  /-- The maturity of the version. -/
  status : String := "release"
  /-- The extension of its files, also of undeclared companions. -/
  extension : String := "jar"
  /-- Its configurations by name, in ascending order. -/
  configurations : List (String × Configuration) := []
deriving DecidableEq, Repr

namespace Metadata

/-- The configuration of a name. -/
def configuration? (m : Metadata) (name : String) : Option Configuration :=
  Ascending.find? name m.configurations

/-- How many entries the lists of extended configurations have in all. -/
def extensionCount (m : Metadata) : Nat :=
  (m.configurations.flatMap fun entry => entry.2.parents).length

/-- Searches the extended configurations depth first from the names that are pending. A name that
was visited before is not visited again, so at most one visit per entry of a list of extended
configurations is ever pending, and `fuel` bounds the number of steps. -/
def inherit (m : Metadata) : Nat → (pending visited : List String) → List Artifact → List Artifact
  | 0, _, _, found => found
  | _, [], _, found => found
  | fuel + 1, name :: pending, visited, found =>
    if name ∈ visited then inherit m fuel pending visited found
    else match m.configuration? name with
      | none => inherit m fuel pending (name :: visited) found
      | some c =>
        inherit m fuel (c.parents.reverse ++ pending) (name :: visited)
          (Ascending.insertAll found c.artifacts)

/-- The artifacts of a configuration, inherited ones included, in ascending order. None if the
module does not declare the configuration. -/
def artifactsOf? (m : Metadata) (name : String) : Option (List Artifact) :=
  (m.configuration? name).map fun _ => m.inherit (m.extensionCount + 1) [name] [] []

end Metadata
end ArtifactResolver
