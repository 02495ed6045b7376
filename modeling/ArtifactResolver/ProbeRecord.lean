import ArtifactResolver.Format.Descriptor
import ArtifactResolver.Toml.Printer

/-!
# Records of probes

The answer to a probe for companion artifacts is kept in the cache as a TOML document with one table
for each artifact that was found. The module version is left out, as it is known from the key of the
entry, and put back when the record is read.
-/

namespace ArtifactResolver.ProbeRecord

open Toml (Value Fields required)

/-- The table of an artifact. -/
def writeArtifact (a : Artifact) : List Char :=
  "[[artifacts]]\n".toList ++ Toml.writeField "name" a.name ++ Toml.writeField "type" a.kind ++
    Toml.writeField "extension" a.extension ++
    match a.classifier with
    | some classifier => Toml.writeField "classifier" classifier
    | none => []

/-- The text of the record of a set of artifacts: the tables with a blank line between them, or an
empty array. -/
def write (artifacts : List Artifact) : List Char :=
  if artifacts.isEmpty then "artifacts = []\n".toList
  else ['\n'].intercalate (artifacts.map writeArtifact)

/-- The bytes of the record of a set of artifacts. -/
def encode (artifacts : List Artifact) : Bytes := Text.encode (String.ofList (write artifacts))

/-- An artifact of a record of which not every field was read. -/
structure Draft where
  /-- Its name. -/
  name : Option String := none
  /-- Its kind. -/
  kind : Option String := none
  /-- Its extension. -/
  extension : Option String := none
  /-- Its classifier, if it has one. -/
  classifier : Option String := none

/-- The fields of an artifact. -/
def Draft.fields : Fields Draft where
  names := ["name", "type", "extension", "classifier"]
  needed := 4
  blank := {}
  read field v d :=
    match field with
    | "name" => return { d with name := some (← v.text) }
    | "type" => return { d with kind := some (← v.text) }
    | "extension" => return { d with extension := some (← v.text) }
    | "classifier" => return { d with classifier := some (← v.text) }
    | _ => return d

/-- Reads an artifact of a module version. -/
def artifactOfValue (module : Coordinate) (v : Value) : Except Toml.Error Artifact := do
  let d ← Draft.fields.ofValue v
  let name ← required "name" d.name
  let kind ← required "type" d.kind
  let extension ← required "extension" d.extension
  return ⟨module, name, kind, extension, d.classifier⟩

/-- The fields of a record. -/
def fields (module : Coordinate) : Fields (Option (List Artifact)) where
  names := ["artifacts"]
  needed := 1
  blank := none
  read field v artifacts :=
    match field with
    | "artifacts" => return some (← v.list (artifactOfValue module))
    | _ => return artifacts

/-- Reads the record of a set of artifacts of a module version. -/
def decode (module : Coordinate) (bytes : Bytes) : Except ParseError (List Artifact) := do
  let artifacts ← Descriptor.readDocument (fun entries => do
    required "artifacts" (← (fields module).readAll entries)) bytes
  return Ascending.ofList artifacts

end ArtifactResolver.ProbeRecord
