import ArtifactResolver.Layout
import ArtifactResolver.Toml.Document
import ArtifactResolver.Toml.Record

/-!
# The list of repositories

A project lists its repositories in a TOML document, in the order in which they are asked. Entries
of the cache are kept apart by the names of the repositories, so every repository has a name, and no
two have the same.
-/

namespace ArtifactResolver

open Toml (Value Fields required)

/-- A repository as the list gives it. -/
structure Definition where
  /-- The name of the repository. -/
  name : String
  /-- The directory of its files. -/
  url : String
  /-- The name of its format. -/
  format : String := "toml"
  /-- The pattern of descriptors, if given. -/
  descriptorPattern : Option String := none
  /-- The pattern of artifacts, if given. -/
  artifactPattern : Option String := none
deriving DecidableEq, Repr

namespace Definition

/-- A repository of which not every field was read. -/
structure Draft where
  /-- The name of the repository. -/
  name : Option String := none
  /-- The directory of its files. -/
  url : Option String := none
  /-- The name of its format. -/
  format : Option String := none
  /-- The pattern of descriptors. -/
  descriptorPattern : Option String := none
  /-- The pattern of artifacts. -/
  artifactPattern : Option String := none

/-- The fields of a repository. -/
def Draft.fields : Fields Draft where
  names := ["name", "url", "format", "descriptor_pattern", "artifact_pattern"]
  needed := 2
  blank := {}
  read field v d :=
    match field with
    | "name" => return { d with name := some (← v.text) }
    | "url" => return { d with url := some (← v.text) }
    | "format" => return { d with format := some (← v.text) }
    | "descriptor_pattern" => return { d with descriptorPattern := some (← v.text) }
    | "artifact_pattern" => return { d with artifactPattern := some (← v.text) }
    | _ => return d

/-- Reads a repository. -/
def ofValue (v : Value) : Except Toml.Error Definition := do
  let d ← Draft.fields.ofValue v
  let name ← required "name" d.name
  let url ← required "url" d.url
  return ⟨name, url, d.format.getD "toml", d.descriptorPattern, d.artifactPattern⟩

/-- The layout of the repository. -/
def layout (d : Definition) : Layout where
  descriptorPattern := d.descriptorPattern.getD ({} : Layout).descriptorPattern
  artifactPattern := d.artifactPattern.getD ({} : Layout).artifactPattern

end Definition

namespace RepositoryList

/-- The fields of the list. -/
def fields : Fields (List Definition) where
  names := ["repository"]
  needed := 0
  blank := []
  read field v list :=
    match field with
    | "repository" => v.list Definition.ofValue
    | _ => return list

/-- The first fault of the names in a list, once the given names were seen. -/
def nameFault? (seen : List String) : List Definition → Option ParseError
  | [] => none
  | d :: rest =>
    if d.name = "" then some (.missingKey "name")
    else if d.name ∈ seen then some (.duplicateRepository d.name)
    else nameFault? (d.name :: seen) rest

/-- The list, if all names are there and none of them occurs twice. -/
def check (list : List Definition) : Except ParseError (List Definition) :=
  match nameFault? [] list with
  | some fault => .error fault
  | none => .ok list

/-- Reads a list of repositories. -/
def parse (text : String) : Except ParseError (List Definition) := do
  let entries ← (Toml.parse text).mapError .toml
  check (← (fields.readAll entries).mapError .toml)

end RepositoryList
end ArtifactResolver
