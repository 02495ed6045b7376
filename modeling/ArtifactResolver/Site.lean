import ArtifactResolver.Files.Tree
import ArtifactResolver.Lens
import ArtifactResolver.Transport

/-!
# Sites

The places where repositories keep their files: a directory, or a table in memory, which can be made
to fail in every way in which a site can fail.
-/

namespace ArtifactResolver

/-- How a call to a site fails. -/
inductive SiteFault where
  /-- It finds nothing, and takes its time for that. -/
  | slow
  /-- It panics. -/
  | panics
  /-- It fails for a cause, which depends on the location. -/
  | fails (cause : String → TransportError)

/-- A site in memory. -/
structure Site where
  /-- The files by location. -/
  resources : List (String × Bytes) := []
  /-- The faults by location; without a location, for every location. -/
  faults : List (Option String × SiteFault) := []
  /-- Whether the site is not there at all. -/
  unreachable : Bool := false

namespace Site

/-- Puts a file at a location. -/
def publish (s : Site) (location : String) (content : Bytes) : Site :=
  { s with resources := (location, content) :: s.resources.filter fun file => file.1 ≠ location }

/-- Removes the file at a location. -/
def withdraw (s : Site) (location : String) : Site :=
  { s with resources := s.resources.filter fun file => file.1 ≠ location }

/-- Makes calls for a location fail, or no longer fail. -/
def setFault (s : Site) (location : Option String) (fault : Option SiteFault) : Site :=
  let others := s.faults.filter fun entry => entry.1 ≠ location
  { s with faults := (fault.map (location, ·)).toList ++ others }

/-- How long a slow call takes. -/
def slowness : Duration := ⟨150⟩

/-- The reply to a call that finds a file or not. -/
def reply {α : Type} (s : Site) (location : String) (found : Option Bytes → α) : Reply α :=
  if s.unreachable then .answers ⟨0⟩ (.error (.unreachable location))
  else match (s.faults.lookup (some location)).or (s.faults.lookup none) with
  | some .slow => .answers slowness (.ok (found none))
  | some .panics => .panics "transport"
  | some (.fails cause) => .answers ⟨0⟩ (.error (cause location))
  | none => .answers ⟨0⟩ (.ok (found (s.resources.lookup location)))

/-- The way to a site in memory, with an empty site if there is none. -/
def transport {σ : Type} (site? : σ → Option Site) (limit : Option Duration) : Transport σ where
  fetch env location := ((site? env).getD {}).reply location id
  probe env location := ((site? env).getD {}).reply location Option.isSome
  limit := limit

end Site

/-- The way to a site in a directory. -/
structure FileSite where
  /-- The path of the directory. -/
  root : String
deriving DecidableEq, Repr

namespace FileSite

/-- The path of a location, which starts at the directory even if the location starts with slashes,
or the fault that there is no such directory. -/
def pathOf (s : FileSite) (t : Files.Tree) (location : String) : Except TransportError String :=
  if t.isDirectory s.root then
    .ok (Files.Path.join s.root (String.ofList (location.toList.dropWhile (· == '/'))))
  else .error (.unreachable s.root)

/-- The content of the file at a location. -/
def fetch (s : FileSite) (t : Files.Tree) (location : String) :
    Except TransportError (Option Bytes) := do
  let path ← s.pathOf t location
  match t.read path with
  | .ok content => return some content
  | .error .notFound => return none
  | .error e => throw (.io path e)

/-- Whether there is a file at a location. -/
def probe (s : FileSite) (t : Files.Tree) (location : String) : Except TransportError Bool := do
  let path ← s.pathOf t location
  (t.hasFile path).mapError (.io path)

/-- The way to the site, which takes no time. -/
def transport {σ : Type} (s : FileSite) (l : Lens σ Files.Tree) (limit : Option Duration) :
    Transport σ where
  fetch env location := .answers ⟨0⟩ (s.fetch (l.get env) location)
  probe env location := .answers ⟨0⟩ (s.probe (l.get env) location)
  limit := limit

end FileSite
end ArtifactResolver
