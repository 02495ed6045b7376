/-!
# Paths

A path is text with slashes. One that starts with a slash starts at the root of the file system,
any other at the directory that a session works in.
-/

namespace ArtifactResolver.Files.Path

/-- Whether the path starts at the root. -/
def isAbsolute (path : String) : Bool := path.toList.head? == some '/'

/-- Whether the path ends with a slash, which asks for a directory. -/
def endsInSlash (path : String) : Bool := path.toList.getLast? == some '/'

/-- The second path, where it starts at the end of the first one unless it is absolute. -/
def join (base path : String) : String :=
  if isAbsolute path then path
  else if base.isEmpty || endsInSlash base then base ++ path
  else base ++ "/" ++ path

/-- The names between the slashes of a path. -/
def components (path : String) : List String :=
  ((path.toList.splitOn '/').filter fun name => !name.isEmpty).map String.ofList

/-- The path through the given names, at the root or not. -/
def ofComponents (absolute : Bool) (names : List String) : String :=
  (if absolute then "/" else "") ++ "/".intercalate names

/-- The paths of the directories that a path passes through, the innermost first. The names of the
path are given in reverse. -/
def outer (absolute : Bool) : List String → List String
  | [] => []
  | _ :: above => ofComponents absolute above.reverse :: outer absolute above

/-- The path, and then the paths of the directories that it passes through, the innermost first. -/
def ancestors (path : String) : List String :=
  path :: outer (isAbsolute path) ((components path).filter (· ≠ ".")).reverse

end ArtifactResolver.Files.Path
