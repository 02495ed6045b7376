import ArtifactResolver.Duration
import ArtifactResolver.Files.Error
import ArtifactResolver.Files.Path
import ArtifactResolver.Text.Utf8

/-!
# File trees

The files and directories that a session works on. A tree is a map from places to entries, where a
place is the sequence of names that leads there from the root. Paths are followed name by name, as
an operating system follows them, and every operation fails for the cause that it would report; an
operation that has parts can fail after some of them, and then says what they left behind.
-/

namespace ArtifactResolver.Files

/-- The names that lead to a file or directory from the root. -/
abbrev Place := List String

/-- What stands at a place. -/
inductive Entry where
  /-- A file with its content, and the time of its last change in milliseconds. -/
  | file (content : Bytes) (modified : Int)
  /-- A directory. -/
  | directory
deriving DecidableEq, Repr

/-- The greatest number of bytes in a name. -/
def Tree.maxNameBytes : Nat := 255

/-- The greatest number of bytes in a path. -/
def Tree.maxPathBytes : Nat := 4095

/-- How long names and paths may be, in bytes; none is no limit. -/
structure Limits where
  /-- The greatest number of bytes in a name. -/
  name : Option Nat := some Tree.maxNameBytes
  /-- The greatest number of bytes in a path. -/
  path : Option Nat := some Tree.maxPathBytes
deriving DecidableEq, Repr

/-- Whether a name is not too long. -/
def Limits.admitsName (l : Limits) (name : String) : Bool := l.name.all (name.utf8ByteSize ≤ ·)

/-- Whether a path is not too long. -/
def Limits.admitsPath (l : Limits) (path : String) : Bool := l.path.all (path.utf8ByteSize ≤ ·)

/-- The files and directories of a session. -/
structure Tree where
  /-- The entries by place, the root left out. -/
  entries : List (Place × Entry) := []
  /-- The directory at which relative paths start. -/
  origin : Place := []
  /-- The time in milliseconds. -/
  now : Int := 0
  /-- How long names and paths may be. -/
  limits : Limits := {}
  /-- How many temporary files the session has had. -/
  temporaries : Nat := 0

namespace Tree

/-- What stands at a place, none if nothing does. -/
def entryAt? (t : Tree) (place : Place) : Option Entry :=
  if place = [] then some .directory else t.entries.lookup place

/-- Removes what stands at a place. -/
def erase (t : Tree) (place : Place) : Tree :=
  { t with entries := t.entries.filter fun entry => entry.1 ≠ place }

/-- Puts something at a place. -/
def put (t : Tree) (place : Place) (e : Entry) : Tree :=
  { t with entries := (place, e) :: (t.erase place).entries }

/-- Follows one name from a directory. The name has to lead to a directory. -/
def enter (t : Tree) (place : Place) (name : String) : Except Error Place :=
  if name = "." then .ok place
  else if name = ".." then .ok place.dropLast
  else if !t.limits.admitsName name then .error .nameTooLong
  else match t.entryAt? (place ++ [name]) with
  | some .directory => .ok (place ++ [name])
  | some (.file ..) => .error .notDirectory
  | none => .error .notFound

/-- Where a path leads. -/
inductive Target where
  /-- To a directory by way of itself: the root, or a path that ends in `.` or `..`. -/
  | directory (place : Place)
  /-- To the given name in a directory, where nothing need stand. -/
  | named (parent : Place) (name : String)
deriving DecidableEq, Repr

/-- Follows a path up to its last name. -/
def follow (t : Tree) (path : String) : Except Error Target :=
  if path.toList.contains '\x00' then .error .nulInName
  else if path.isEmpty then .error .notFound
  else if !t.limits.admitsPath path then .error .nameTooLong
  else
    let names := Path.components path
    let start := if Path.isAbsolute path then [] else t.origin
    match names.getLast? with
    | none => .ok (.directory start)
    | some last => do
      let parent ← names.dropLast.foldlM t.enter start
      if last = "." then return .directory parent
      else if last = ".." then return .directory parent.dropLast
      else if !t.limits.admitsName last then throw .nameTooLong
      else return .named parent last

/-- The place that a path leads to, and what stands there. -/
def find (t : Tree) (path : String) : Except Error (Place × Entry) := do
  match ← t.follow path with
  | .directory place => return (place, .directory)
  | .named parent name =>
    match t.entryAt? (parent ++ [name]) with
    | none => throw .notFound
    | some .directory => return (parent ++ [name], .directory)
    | some e =>
      if Path.endsInSlash path then throw .notDirectory else return (parent ++ [name], e)

/-- Whether something stands at the end of a path. -/
def exists? (t : Tree) (path : String) : Bool := (t.find path).isOk

/-- Whether a path leads to a directory. -/
def isDirectory (t : Tree) (path : String) : Bool :=
  match t.find path with
  | .ok (_, .directory) => true
  | _ => false

/-- Whether a path leads to a file, where nothing at all is no fault. -/
def hasFile (t : Tree) (path : String) : Except Error Bool :=
  match t.find path with
  | .ok (_, .file ..) => .ok true
  | .ok (_, .directory) => .ok false
  | .error .notFound => .ok false
  | .error e => .error e

/-- The content of a file. -/
def read (t : Tree) (path : String) : Except Error Bytes := do
  match ← t.find path with
  | (_, .file content _) => return content
  | (_, .directory) => throw .isDirectory

/-- How long ago a file was changed; a change in the future counts as one right now. The directories
of a session count as just changed. -/
def age (t : Tree) (path : String) : Except Error Duration := do
  match ← t.find path with
  | (_, .file _ modified) => return ⟨(t.now - modified).toNat⟩
  | (_, .directory) => return ⟨0⟩

/-- Creates a file with the given content, or replaces the content of the one that is there. -/
def write (t : Tree) (path : String) (content : Bytes) : Except Error Tree := do
  match ← t.follow path with
  | .directory _ => throw .isDirectory
  | .named parent name =>
    if Path.endsInSlash path then throw .isDirectory
    else match t.entryAt? (parent ++ [name]) with
    | some .directory => throw .isDirectory
    | _ => return t.put (parent ++ [name]) (.file content t.now)

/-- Creates a directory. -/
def makeDirectory (t : Tree) (path : String) : Except Error Tree := do
  match ← t.follow path with
  | .directory _ => throw .alreadyExists
  | .named parent name =>
    if (t.entryAt? (parent ++ [name])).isSome then throw .alreadyExists
    else return t.put (parent ++ [name]) .directory

/-- Creates the first of the given directories, after those that it passes through, which follow it
in the list. -/
def makeFirst (t : Tree) : List String → Except Error Unit × Tree
  | [] => (.ok (), t)
  | path :: above =>
    if path.isEmpty then (.ok (), t)
    else match t.makeDirectory path with
    | .ok made => (.ok (), made)
    | .error .notFound =>
      match t.makeFirst above with
      | (.error e, made) => (.error e, made)
      | (.ok _, made) =>
        match made.makeDirectory path with
        | .ok made => (.ok (), made)
        | .error e => if made.isDirectory path then (.ok (), made) else (.error e, made)
    | .error e => if t.isDirectory path then (.ok (), t) else (.error e, t)

/-- Creates a directory and those that its path passes through, as far as they do not exist. -/
def makeDirectories (t : Tree) (path : String) : Except Error Unit × Tree :=
  t.makeFirst (Path.ancestors path)

/-- Writes a file, after the directories that its path passes through. -/
def writeDeep (t : Tree) (path : String) (content : Bytes) : Except Error Unit × Tree :=
  match t.makeFirst (Path.ancestors path).tail with
  | (.error e, made) => (.error e, made)
  | (.ok _, made) =>
    match made.write path content with
    | .ok written => (.ok (), written)
    | .error e => (.error e, made)

/-- Gives a file another path, in place of a file that is there. -/
def rename (t : Tree) (source target : String) : Except Error Tree := do
  let (place, e) ← t.find source
  match ← t.follow target with
  | .directory _ => throw .isDirectory
  | .named parent name =>
    match t.entryAt? (parent ++ [name]) with
    | some .directory => throw .isDirectory
    | _ => return (t.erase place).put (parent ++ [name]) e

/-- Removes a file. -/
def removeFile (t : Tree) (path : String) : Except Error Tree := do
  match ← t.find path with
  | (place, .file ..) => return t.erase place
  | (_, .directory) => throw .isDirectory

/-- Removes what stands at a place and everything below it. -/
def eraseAll (t : Tree) (place : Place) : Tree :=
  { t with entries := t.entries.filter fun entry => !place.isPrefixOf entry.1 }

/-- Removes a file, or a directory and everything in it. -/
def removeAll (t : Tree) (path : String) : Except Error Tree := do
  return t.eraseAll (← t.find path).1

/-- The names of what stands in the directory at a place. -/
def namesIn (t : Tree) (place : Place) : List String :=
  t.entries.filterMap fun entry =>
    if entry.1.dropLast = place then entry.1.getLast? else none

/-- Sets the time of the last change of a file to the given number of milliseconds ago. -/
def setAge (t : Tree) (path : String) (age : Int) : Except Error Tree := do
  match ← t.find path with
  | (place, .file content _) => return t.put place (.file content (t.now - age))
  | (_, .directory) => throw .isDirectory

/-- What stands below a place, each entry by its names from there. -/
def below (t : Tree) (place : Place) : List (Place × Entry) :=
  t.entries.filterMap fun entry =>
    if place.isPrefixOf entry.1 && entry.1.length > place.length
    then some (entry.1.drop place.length, entry.2) else none

/-- The files below a place by their paths from there, each with its content, and the directories in
which nothing stands, by paths that end with a slash. -/
def leaves (t : Tree) (place : Place) : List (String × Option Bytes) :=
  let all := t.below place
  all.filterMap fun entry =>
    let path := Path.ofComponents false entry.1
    match entry.2 with
    | .file content _ => some (path, some content)
    | .directory =>
      if all.any fun other => other.1.dropLast = entry.1 then none else some (path ++ "/", none)

end Tree
end ArtifactResolver.Files
