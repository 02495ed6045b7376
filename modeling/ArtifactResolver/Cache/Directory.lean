import ArtifactResolver.Cache.Store
import ArtifactResolver.Files.Lock

/-!
# A cache in a directory

Every entry is a file, whose path below the directory is the text of its key. An entry is written to
a temporary file first, which then takes the place of the entry, so that a reader sees the old entry
or the new one and nothing between. The directory holds a lock file, which clearing the cache
leaves.
-/

namespace ArtifactResolver.Cache

open Files (Tree Path.join)

/-- A directory with a cache. -/
structure Directory where
  /-- The path of the directory. -/
  location : String
  /-- The number of the process that writes to it. -/
  process : Nat := 1
  /-- How many temporary files the process has had before it writes. -/
  count : Nat := 0
deriving DecidableEq, Repr

namespace Directory

/-- The name of the lock file. -/
def lockName : String := ".lock"

/-- The path of an entry. -/
def entryPath (d : Directory) (key : Key) : String := Path.join d.location key.text

/-- The path of the directory that an entry stands in. -/
def entryDirectory (d : Directory) (key : Key) : String :=
  Path.join d.location (Key.text ⟨key.segments.dropLast⟩)

/-- The name of the file that an entry is written to first. It starts with a point, and tells the
process that writes it and how many such files that had before. -/
def temporaryName (d : Directory) (key : Key) : String :=
  let name := String.ofList (key.segments.getLast?.getD [])
  s!".{name}.{d.process}.{d.count}.tmp"

/-- The path of the file that an entry is written to first. -/
def temporaryPath (d : Directory) (key : Key) : String :=
  Path.join (d.entryDirectory key) (d.temporaryName key)

/-- A result that is none where nothing stands. -/
def orNone {α : Type} : Except Files.Error α → Except CacheError (Option α)
  | .ok a => .ok (some a)
  | .error .notFound => .ok none
  | .error e => .error (.io e)

/-- Fills the temporary file and puts it in the place of the entry. -/
def replaceEntry (d : Directory) (t : Tree) (key : Key) (content : Bytes) :
    Except Files.Error Unit × Tree :=
  match t.write (d.temporaryPath key) content with
  | .error e => (.error e, t)
  | .ok filled =>
    match filled.rename (d.temporaryPath key) (d.entryPath key) with
    | .error e => (.error e, filled)
    | .ok renamed => (.ok (), renamed)

/-- Writes an entry. When that fails, the temporary file is removed. -/
def write (d : Directory) (t : Tree) (key : Key) (content : Bytes) :
    Except CacheError Unit × Tree :=
  match t.makeDirectories (d.entryDirectory key) with
  | (.error e, t) => (.error (.io e), t)
  | (.ok _, t) =>
    match d.replaceEntry t key content with
    | (.ok _, t) => (.ok (), t)
    | (.error e, t) => (.error (.io e), (t.removeFile (d.temporaryPath key)).toOption.getD t)

/-- The store in a directory for a writer whose temporary file has the number of the directory. -/
def store (d : Directory) : Store Tree where
  read t key := orNone (t.read (d.entryPath key))
  age t key := orNone (t.age (d.entryPath key))
  write := d.write
  path := d.entryPath

/-- The directory with the number of the next temporary file. -/
def next (d : Directory) (t : Tree) : Directory := { d with count := d.count + t.temporaries }

/-- How many temporary files the session has had once an entry was written. Where the directories of
the entry cannot be created, there is no further one. -/
def temporariesAfter (d : Directory) (t : Tree) (key : Key) : Nat :=
  if (t.makeDirectories (d.entryDirectory key)).1.isOk then t.temporaries + 1 else t.temporaries

/-- The store in a directory as a session uses it: the writer of every entry has the next number. -/
def sessionStore (d : Directory) : Store Tree where
  read := d.store.read
  age := d.store.age
  write t key content :=
    let (result, written) := (d.next t).store.write t key content
    (result, { written with temporaries := d.temporariesAfter t key })
  path := d.store.path

/-- Creates the directory if nothing stands at its path. -/
def prepare (location : String) : Action Tree (Except CacheError Unit) := do
  let t ← Action.env
  if t.exists? location then
    if t.isDirectory location then return .ok () else return .error (.badLocation location)
  else
    let (result, t) := t.makeDirectories location
    Action.setEnv t
    return result.mapError .io

/-- Opens the cache in a directory, which is created if it does not exist, and locks it. -/
def openAt (location : String) : Action Tree (Except CacheError Directory) := do
  match ← prepare location with
  | .error e => return .error e
  | .ok _ =>
    match ← Files.acquireLock (Path.join location lockName) with
    | .error e => return .error (.lock e)
    | .ok _ => return .ok { location := location }

/-- The tree without the entries of the directory at a place. The lock file stays. -/
def emptied (t : Tree) (place : Files.Place) : Tree :=
  ((t.namesIn place).filter (· ≠ lockName)).foldl (fun t name => t.eraseAll (place ++ [name])) t

/-- Removes all entries. Where nothing stands there is nothing to remove. -/
def clear (d : Directory) : Action Tree (Except CacheError Unit) := do
  let t ← Action.env
  match t.find d.location with
  | .error _ => return .ok ()
  | .ok (place, found) =>
    Action.log .info s!"Clearing artifetch cache {d.location}."
    match found with
    | .file .. => return .error (.io .notDirectory)
    | .directory => do
      Action.setEnv (emptied t place)
      return .ok ()

end Directory
end ArtifactResolver.Cache
