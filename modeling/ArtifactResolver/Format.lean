import ArtifactResolver.Metadata
import ArtifactResolver.ParseError
import ArtifactResolver.Text.Utf8

/-!
# Repository formats

A format says where a repository keeps descriptors, version listings and artifacts, and how the
first two are read.
-/

namespace ArtifactResolver

/-- How the files of a repository are found and read. -/
structure Format where
  /-- The name of the format. -/
  name : String
  /-- The place of the descriptor of a module version. -/
  descriptorLocation : Coordinate → String
  /-- The place of the version listing of a module. -/
  listingLocation : Selector → String
  /-- The place of an artifact. -/
  artifactLocation : Artifact → String
  /-- Reads the descriptor of the module version that was asked for. -/
  readMetadata : Coordinate → Bytes → Except ParseError Metadata
  /-- Reads a version listing: the versions in ascending order, each of them once. -/
  readVersions : Bytes → Except ParseError (List Version)

end ArtifactResolver
