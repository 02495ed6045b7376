import ArtifactResolver.Format.Descriptor
import ArtifactResolver.Layout

/-!
# The registry of formats

Formats are made by name, each for the layout of one repository. The registry knows one format of
its own; others can be registered, also under the name of that one.
-/

namespace ArtifactResolver

/-- The format with TOML documents for descriptors and listings. -/
def Format.toml (l : Layout) : Format where
  name := "toml"
  descriptorLocation c := l.descriptorLocation (Descriptor.artifactOf c)
  listingLocation s := l.listingLocation s.group s.name
  artifactLocation := l.artifactLocation
  readMetadata := Descriptor.read
  readVersions := Descriptor.readVersions

/-- The formats that a repository can have. -/
structure Registry where
  /-- How the format of a name is made for a layout. -/
  factories : List (String × (Layout → Format)) := []

namespace Registry

/-- Adds a format; one that was registered under the name before is replaced. -/
def register (r : Registry) (name : String) (factory : Layout → Format) : Registry :=
  ⟨(name, factory) :: r.factories.filter fun entry => entry.1 ≠ name⟩

/-- The registry with the format that is built in. -/
def standard : Registry := ({} : Registry).register "toml" Format.toml

/-- The format of a name for a layout. -/
def create (r : Registry) (name : String) (l : Layout) : Except ParseError Format :=
  match r.factories.lookup name with
  | some factory => .ok (factory l)
  | none => .error (.unknownFormat name)

end Registry
end ArtifactResolver
