import ArtifactResolver.Cache.Error
import ArtifactResolver.Coordinate

/-!
# Why a lookup fails

Every lookup of a module goes through a chain of repositories. A repository fails a lookup for one
cause; the chain as a whole fails it when no repository had an answer and some failed, and keeps
what each of them had to say.
-/

namespace ArtifactResolver

/-- The lookups. -/
inductive Operation where
  /-- Listing the versions of a module. -/
  | listing
  /-- Resolving the metadata of a module version. -/
  | metadata
  /-- Resolving the artifacts of a category. -/
  | artifacts
  /-- Downloading an artifact. -/
  | artifact
deriving DecidableEq, Repr

namespace Operation

/-- The name of a lookup. -/
def name : Operation → String
  | listing => "list_module_versions"
  | metadata => "resolve_component_metadata"
  | artifacts => "resolve_module_artifacts"
  | artifact => "resolve_artifact"

/-- What a lookup does, as part of a sentence. -/
def description : Operation → String
  | listing => "list versions"
  | metadata => "resolve metadata"
  | artifacts => "resolve artifacts"
  | artifact => "download artifact"

end Operation

/-- Why a call to a repository's site failed. -/
inductive TransportError where
  /-- A file of the site could not be read. -/
  | io (location : String) (cause : Files.Error)
  /-- The site is not there. -/
  | unreachable (location : String)
  /-- The site took longer than the limit. -/
  | timedOut (location : String) (limit : Duration)
  /-- The call ended without an answer. -/
  | interrupted (location : String)
deriving DecidableEq, Repr

/-- The wording of an error. -/
def TransportError.message : TransportError → String
  | io location cause => s!"IO error accessing {location}: {cause.message}"
  | unreachable location => s!"Repository root {location} is unreachable"
  | timedOut location limit => s!"Timed out after {limit.display} accessing {location}"
  | interrupted location => s!"Transport call for {location} was interrupted"

/-- Why a lookup failed. -/
inductive Failure where
  /-- The site of a repository gave no answer. -/
  | transport (operation : Operation) (subject repository : String) (cause : TransportError)
  /-- The cache has no answer and the session is offline. -/
  | offline (operation : Operation) (subject : String)
  /-- What a repository or its cache holds could not be read. -/
  | parse (subject repository : String) (cause : ParseError)
  /-- The cache of a repository failed. -/
  | cache (subject repository : String) (cause : CacheError)
  /-- The module has no configuration of this name. -/
  | unknownConfiguration (module : Coordinate) (configuration : String)
  /-- No repository has an answer, and the named ones failed. -/
  | exhausted (operation : Operation) (subject : String) (failures : List (String × Failure))
deriving Inhabited

namespace Failure

/-- The wording of a lookup that needs what the cache does not hold. -/
def offlineMessage (operation : Operation) (subject : String) : String :=
  match operation with
  | .listing => s!"No cached version listing for {subject} available for offline mode " ++
      s!"({operation.name})"
  | _ => s!"No cached version of {subject} available for offline mode ({operation.name})"

mutual

/-- The wording of a failure; that of a chain has a line for every repository that failed. -/
def message : Failure → String
  | transport operation subject repository cause =>
    s!"Could not {operation.description} for {subject} from repository {repository}: " ++
      cause.message
  | offline operation subject => offlineMessage operation subject
  | parse subject repository cause =>
    s!"Could not parse {subject} from repository {repository}: {cause.message}"
  | cache subject repository cause =>
    s!"Could not read cached {subject} for repository {repository}: {cause.message}"
  | unknownConfiguration module configuration =>
    s!"Configuration `{configuration}` is not declared by {module.display}"
  | exhausted operation subject failures =>
    s!"Could not {operation.description} for {subject}:" ++ lines failures

/-- A line for every repository that failed. -/
def lines : List (String × Failure) → String
  | [] => ""
  | (repository, failure) :: rest => s!"\n  - {repository}: " ++ message failure ++ lines rest

end

mutual

/-- Whether a failure comes from working offline, in some repository at least. -/
def isOffline : Failure → Bool
  | offline .. => true
  | exhausted _ _ failures => anyOffline failures
  | _ => false

/-- Whether one of the failures comes from working offline. -/
def anyOffline : List (String × Failure) → Bool
  | [] => false
  | (_, failure) :: rest => isOffline failure || anyOffline rest

end

end Failure
end ArtifactResolver
