import ArtifactResolver.Files.Error
import ArtifactResolver.Text.Utf8
import ArtifactResolver.Toml.Error

/-!
# Why a text is refused

Coordinates, selectors, durations, descriptors, listings and the repositories file share one type of
errors. Every constructor is a cause; the wording is in `ParseError.message`.
-/

namespace ArtifactResolver

/-- Why a text or a document was refused. -/
inductive ParseError where
  /-- The file could not be read. -/
  | unreadable (cause : Files.Error)
  /-- The document is not TOML, or not of the expected shape. -/
  | toml (cause : Toml.Error)
  /-- The bytes are not UTF-8. -/
  | notUtf8 (cause : Text.Utf8Error)
  /-- A key that has to have a value has none. -/
  | missingKey (key : String)
  /-- The text is not a coordinate. -/
  | invalidCoordinate (text : String)
  /-- The text is not a selector. -/
  | invalidSelector (text : String)
  /-- The text is not a trust duration. -/
  | invalidDuration (text : String)
  /-- A descriptor describes another module than the one that was asked for. -/
  | coordinateMismatch (requested found : String)
  /-- A configuration extends one that its descriptor does not declare. -/
  | undeclaredParent (configuration parent : String)
  /-- Two repositories have one name. -/
  | duplicateRepository (name : String)
  /-- No repository format has this name. -/
  | unknownFormat (name : String)
deriving DecidableEq, Repr

/-- The wording of an error. -/
def ParseError.message : ParseError → String
  | unreadable cause => s!"IO error reading configuration toml: {cause.message}"
  | toml cause => s!"TOML parsing error: {cause.message}"
  | notUtf8 cause => s!"Descriptor is not valid UTF-8: {cause.message}"
  | missingKey key => s!"Missing TOML key `{key}` while parsing"
  | invalidCoordinate text =>
    s!"Invalid module coordinate `{text}`, expected `group:name:version`"
  | invalidSelector text =>
    s!"Invalid module selector `{text}`, expected `group:name[:constraint]`"
  | invalidDuration text =>
    s!"Invalid cache duration `{text}`, expected `always` or a number with an optional " ++
      "s/m/h/d suffix"
  | coordinateMismatch requested found =>
    s!"Descriptor declares module {found} but {requested} was requested"
  | undeclaredParent configuration parent =>
    s!"Configuration `{configuration}` extends undeclared configuration `{parent}`"
  | duplicateRepository name => s!"Repository `{name}` is declared more than once"
  | unknownFormat name => s!"Unknown repository format `{name}`"

end ArtifactResolver
