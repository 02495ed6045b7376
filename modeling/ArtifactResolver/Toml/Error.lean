/-!
# Why a TOML document is refused

A document is read in two steps: as TOML, and then as a value of the expected shape. The first step
has one error; the errors of the second say what was found at the first place that does not fit.
-/

namespace ArtifactResolver.Toml

/-- Why a document was refused. -/
inductive Error where
  /-- The text is not a TOML document. -/
  | malformed
  /-- A value has another type, or a sequence another length, than its place asks for. -/
  | wrongType
  /-- A table lacks a required field. -/
  | missingField (name : String)
  /-- A value of the right type was refused for the given reason. -/
  | refused (reason : String)
deriving DecidableEq, Repr

/-- The wording of an error. -/
def Error.message : Error → String
  | malformed => "<syntax>"
  | wrongType => "<type>"
  | missingField name => s!"missing field `{name}`"
  | refused reason => reason

end ArtifactResolver.Toml
