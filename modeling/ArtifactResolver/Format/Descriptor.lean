import ArtifactResolver.Format
import ArtifactResolver.Toml.Document
import ArtifactResolver.Toml.Record

/-!
# Descriptors

A descriptor is a TOML document in which a module version describes itself. What it leaves out is
filled in from the module: an artifact has the name and the extension of the module, and its
extension as its kind. A descriptor without configurations stands for one configuration with one
artifact.
-/

namespace ArtifactResolver.Descriptor

open Toml (Value Fields required)

/-- What a descriptor says about the module as a whole. -/
structure Header where
  /-- The group of the module. -/
  group : Option String := none
  /-- The name of the module. -/
  name : Option String := none
  /-- The version of the module. -/
  version : Option String := none
  /-- The maturity of the version. -/
  status : Option String := none
  /-- The extension of its files. -/
  extension : Option String := none
deriving DecidableEq, Repr

/-- The fields of the table `module`. -/
def Header.fields : Fields Header where
  names := ["group", "name", "version", "status", "extension"]
  needed := 5
  blank := {}
  read field v h :=
    match field with
    | "group" => return { h with group := some (← v.text) }
    | "name" => return { h with name := some (← v.text) }
    | "version" => return { h with version := some (← v.text) }
    | "status" => return { h with status := some (← v.text) }
    | "extension" => return { h with extension := some (← v.text) }
    | _ => return h

/-- A module version as its descriptor gives it. -/
structure ModuleEntry where
  /-- The module version. -/
  coordinate : Coordinate
  /-- Its maturity, if given. -/
  status : Option String
  /-- The extension of its files, if given. -/
  extension : Option String
deriving DecidableEq, Repr

/-- Reads the table `module`. -/
def ModuleEntry.ofValue (v : Value) : Except Toml.Error ModuleEntry := do
  let h ← Header.fields.ofValue v
  let group ← required "group" h.group
  let name ← required "name" h.name
  let version ← required "version" h.version
  return ⟨⟨group, name, version⟩, h.status, h.extension⟩

/-- An artifact as a descriptor gives it. -/
structure ArtifactEntry where
  /-- Its name, if given. -/
  name : Option String := none
  /-- Its kind, if given. -/
  kind : Option String := none
  /-- Its extension, if given. -/
  extension : Option String := none
  /-- Its classifier, if it has one. -/
  classifier : Option String := none
deriving DecidableEq, Repr

/-- The fields of an artifact. -/
def ArtifactEntry.fields : Fields ArtifactEntry where
  names := ["name", "type", "ext", "classifier"]
  needed := 4
  blank := {}
  read field v a :=
    match field with
    | "name" => return { a with name := some (← v.text) }
    | "type" => return { a with kind := some (← v.text) }
    | "ext" => return { a with extension := some (← v.text) }
    | "classifier" => return { a with classifier := some (← v.text) }
    | _ => return a

/-- A configuration as a descriptor gives it. -/
structure ConfigurationEntry where
  /-- What it is for, if given. -/
  description : Option String := none
  /-- Whether other modules may refer to it, if given. -/
  visible : Option Bool := none
  /-- Whether the dependencies of its dependencies count, if given. -/
  transitive : Option Bool := none
  /-- The configurations that it extends. -/
  parents : List String := []
  /-- The modules that it depends on. -/
  dependencies : List Selector := []
  /-- Its artifacts. -/
  artifacts : List ArtifactEntry := []
deriving DecidableEq, Repr

/-- Reads a selector from its written form. -/
def selectorOfValue (v : Value) : Except Toml.Error Selector := do
  match Selector.parse (← v.text) with
  | .ok s => return s
  | .error e => throw (.refused e.message)

/-- The fields of a configuration. -/
def ConfigurationEntry.fields : Fields ConfigurationEntry where
  names := ["description", "visible", "transitive", "extends", "dependencies", "artifacts"]
  needed := 0
  blank := {}
  read field v c :=
    match field with
    | "description" => return { c with description := some (← v.text) }
    | "visible" => return { c with visible := some (← v.truth) }
    | "transitive" => return { c with transitive := some (← v.truth) }
    | "extends" => return { c with parents := ← v.list Value.text }
    | "dependencies" => return { c with dependencies := ← v.list selectorOfValue }
    | "artifacts" => return { c with artifacts := ← v.list ArtifactEntry.fields.ofValue }
    | _ => return c

/-- Reads the table of configurations, in which every key is the name of one. -/
def configurationsOfValue : Value → Except Toml.Error (List (String × ConfigurationEntry))
  | .table entries => entries.mapM fun entry =>
    return (entry.1, ← ConfigurationEntry.fields.ofValue entry.2)
  | _ => .error .wrongType

/-- A descriptor as it is written. -/
structure Document where
  /-- The module version that it describes. -/
  module : ModuleEntry
  /-- Its configurations by name. -/
  configurations : List (String × ConfigurationEntry)
deriving DecidableEq, Repr

/-- The fields of a descriptor. -/
def Document.fields : Fields (Option ModuleEntry × List (String × ConfigurationEntry)) where
  names := ["module", "configurations"]
  needed := 1
  blank := (none, [])
  read field v d :=
    match field with
    | "module" => return (some (← ModuleEntry.ofValue v), d.2)
    | "configurations" => return (d.1, ← configurationsOfValue v)
    | _ => return d

/-- Reads a descriptor from a TOML document. -/
def Document.ofEntries (entries : List (String × Value)) : Except Toml.Error Document := do
  let (header, configurations) ← Document.fields.readAll entries
  return ⟨← required "module" header, configurations⟩

/-- The configuration that stands for a descriptor without any. -/
def standardConfiguration : String × ConfigurationEntry := ("default", { artifacts := [{}] })

/-- The configurations of a descriptor, of which there is one at least. -/
def Document.configurationsOrStandard (d : Document) : List (String × ConfigurationEntry) :=
  if d.configurations.isEmpty then [standardConfiguration] else d.configurations

/-- The artifact of an entry, in a module whose files have the given extension. -/
def ArtifactEntry.complete (module : Coordinate) (extension : String) (a : ArtifactEntry) :
    Artifact :=
  let extension := a.extension.getD extension
  ⟨module, a.name.getD module.name, a.kind.getD extension, extension, a.classifier⟩

/-- The configuration of an entry, in a module whose files have the given extension. -/
def ConfigurationEntry.complete (module : Coordinate) (extension name : String)
    (c : ConfigurationEntry) : Configuration where
  name := name
  description := c.description
  visible := c.visible.getD true
  transitive := c.transitive.getD true
  parents := c.parents
  artifacts := Ascending.ofList (c.artifacts.map (·.complete module extension))
  dependencies := c.dependencies

/-- The metadata that a descriptor stands for. -/
def Document.complete (d : Document) : Metadata :=
  let extension := d.module.extension.getD "jar"
  { coordinate := d.module.coordinate
    status := d.module.status.getD "release"
    extension := extension
    configurations := Ascending.ofEntries <| d.configurationsOrStandard.map fun entry =>
      (entry.1, entry.2.complete d.module.coordinate extension entry.1) }

/-- The first configuration that extends an undeclared one, with the first that it so extends. -/
def undeclaredParent? (m : Metadata) : Option (String × String) :=
  m.configurations.findSome? fun entry =>
    (entry.2.parents.find? fun parent => (m.configuration? parent).isNone).map (entry.2.name, ·)

/-- The metadata of a descriptor that was looked up for a module version. It has to declare every
configuration that it extends, and to describe that module version. -/
def Document.metadataFor (requested : Coordinate) (d : Document) : Except ParseError Metadata :=
  let m := d.complete
  match undeclaredParent? m with
  | some (configuration, parent) => .error (.undeclaredParent configuration parent)
  | none =>
    if m.coordinate = requested then .ok m
    else .error (.coordinateMismatch requested.display m.coordinate.display)

/-- Reads the text of a TOML document, and then the document. -/
def readDocument {α : Type} (read : List (String × Value) → Except Toml.Error α) (bytes : Bytes) :
    Except ParseError α :=
  match Text.decode bytes with
  | .error e => .error (.notUtf8 e)
  | .ok text => ((Toml.parse text).bind read).mapError .toml

/-- Reads the descriptor of a module version. -/
def read (requested : Coordinate) (bytes : Bytes) : Except ParseError Metadata := do
  (← readDocument Document.ofEntries bytes).metadataFor requested

/-- The artifact that the descriptor of a module version is. -/
def artifactOf (c : Coordinate) : Artifact := ⟨c, "module", "descriptor", "toml", none⟩

/-- The fields of a version listing. -/
def listingFields : Fields (Option (List Version)) where
  names := ["versions"]
  needed := 1
  blank := none
  read field v versions :=
    match field with
    | "versions" => return some (← v.list fun version => return ⟨← version.text⟩)
    | _ => return versions

/-- Reads a version listing. -/
def readVersions (bytes : Bytes) : Except ParseError (List Version) := do
  let versions ← readDocument (fun entries => do
    required "versions" (← listingFields.readAll entries)) bytes
  return Ascending.ofList versions

end ArtifactResolver.Descriptor
