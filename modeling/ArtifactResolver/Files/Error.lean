/-!
# Why a file operation fails

The causes that the operating system reports, each with its wording and number. A cause of which
only the wording is known is kept as that wording.
-/

namespace ArtifactResolver.Files

/-- Why an operation on a file or directory failed. -/
inductive Error where
  /-- A component of the path does not exist. -/
  | notFound
  /-- Something exists where a directory was to be created. -/
  | alreadyExists
  /-- A component of the path is not a directory, yet something is looked up in it. -/
  | notDirectory
  /-- The path is a directory where a file is needed. -/
  | isDirectory
  /-- The path, or one of its components, is longer than the system allows. -/
  | nameTooLong
  /-- The path holds the character NUL, which no file name can hold. -/
  | nulInName
  /-- Any other cause, by its wording. -/
  | other (text : String)
deriving DecidableEq, Repr

/-- The wording of a cause. -/
def Error.message : Error → String
  | notFound => "No such file or directory (os error 2)"
  | alreadyExists => "File exists (os error 17)"
  | notDirectory => "Not a directory (os error 20)"
  | isDirectory => "Is a directory (os error 21)"
  | nameTooLong => "File name too long (os error 36)"
  | nulInName => "file name contained an unexpected NUL byte"
  | other text => text

end ArtifactResolver.Files
