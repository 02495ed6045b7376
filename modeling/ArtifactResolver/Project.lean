import ArtifactResolver.Cache.Directory
import ArtifactResolver.Format.Registry
import ArtifactResolver.Pool
import ArtifactResolver.RepositoryList
import ArtifactResolver.Settings
import ArtifactResolver.Site

/-!
# Projects

A project is opened from a directory with a list of repositories. All of them share one cache in a
directory, which is locked as long as the project is open. What is left open in the call is taken
from the settings of the user.
-/

namespace ArtifactResolver

open Files (Tree Path.join)

/-- What surrounds a session. -/
structure Surroundings where
  /-- The environment variables. -/
  environment : List (String × String) := []
  /-- The path of the directory that the session works in. -/
  workingDirectory : String
  /-- The path of the home directory of the user. -/
  home : String
  /-- The number of workers that can work side by side. -/
  processors : Nat := 1

/-- How a project is to be opened. -/
structure Options where
  /-- The directory at which other paths start, instead of the working directory. -/
  root : Option String := none
  /-- The path of the list of repositories. -/
  repositoriesFile : String := "artifetch.toml"
  /-- The directory of the cache, instead of the one in the settings. -/
  cacheDirectory : Option String := none
  /-- Whether to use the cache only, instead of what the settings say. -/
  offline : Option Bool := none
  /-- Whether to count every entry as stale, instead of what the settings say. -/
  refresh : Option Bool := none
  /-- The number of modules that are worked on side by side, instead of as many as there can be. -/
  jobs : Option Nat := none
  /-- How long a call to a site may take. -/
  limit : Duration := .ofSeconds 60
  /-- The formats that repositories can have. -/
  formats : Registry := .standard

/-- Why a project cannot be opened. -/
inductive OpenError where
  /-- The settings are refused. -/
  | settings (cause : SettingsError)
  /-- The cache cannot be opened. -/
  | cache (cause : CacheError)
  /-- The list of repositories is refused. -/
  | repositories (cause : ParseError)

/-- An open project. -/
structure Project where
  /-- The cache that all repositories share. -/
  cache : Cache.Directory
  /-- How the session treats the cache. -/
  policy : Policy
  /-- The repositories. -/
  chain : Chain Tree
  /-- The number of modules that are worked on side by side. -/
  jobs : Nat

namespace Project

/-- The text of a file, which has to be UTF-8. -/
def readText (t : Tree) (path : String) : Except ParseError String :=
  match t.read path with
  | .error e => .error (.unreadable e)
  | .ok content =>
    (Text.decode content).mapError fun _ =>
      .unreadable (.other "stream did not contain valid UTF-8")

/-- Reads the list of repositories; without a file there are none. -/
def readRepositories (path : String) : Action Tree (Except ParseError (List Definition)) := do
  let t ← Action.env
  if t.exists? path then return (readText t path).bind RepositoryList.parse
  else
    Action.log .warn s!"{path} does not exist, no repositories are configured"
    return .ok []

/-- The repository of a definition. -/
def repository (o : Options) (root : String) (cache : Cache.Directory) (p : Policy)
    (d : Definition) : Except ParseError (Repository Tree) := do
  let format ← o.formats.create d.format d.layout
  return {
    name := d.name
    format := format
    store := cache.sessionStore
    transport := FileSite.transport ⟨Path.join root d.url⟩ .whole (some o.limit)
    rules := p.effectiveRules }

/-- The path of the cache directory: as given, as in the settings, or below the home directory. -/
def cacheLocation (surroundings : Surroundings) (o : Options) (s : Settings) (root : String) :
    String :=
  match o.cacheDirectory.or s.cacheDirectory with
  | some path => Path.join root path
  | none => Path.join surroundings.home ".artifetch/cache"

/-- The policy of a session: as given, or as in the settings. -/
def policyOf (o : Options) (s : Settings) : Policy :=
  ⟨o.offline.getD s.offline, o.refresh.getD s.refresh, s.rules⟩

/-- Opens a project. -/
def openWith (surroundings : Surroundings) (o : Options) :
    Action Tree (Except OpenError Project) := do
  match ← Action.ofExcept (Settings.ofEnvironment surroundings.environment) with
  | .error e => return .error (.settings e)
  | .ok settings =>
    let root := o.root.getD surroundings.workingDirectory
    let policy := policyOf o settings
    policy.warning?.forM (Action.log .warn)
    match ← Cache.Directory.openAt (cacheLocation surroundings o settings root) with
    | .error e => return .error (.cache e)
    | .ok cache =>
      match (← readRepositories (Path.join root o.repositoriesFile)).bind
          (List.mapM (repository o root cache policy)) with
      | .error e => return .error (.repositories e)
      | .ok repositories =>
        let chain := ⟨repositories.map fun r => policy.apply r.member⟩
        return .ok ⟨cache, policy, chain, o.jobs.getD surroundings.processors⟩

/-- Resolves modules, reports on them, and logs what became of them. The result is none if a worker
panicked. -/
def resolve (p : Project) (request : ModuleRequest) (selectors : List Selector) :
    Action Tree (Option (List Report)) := do
  match ← p.chain.reports p.jobs request selectors with
  | none => return none
  | some reports => do
    logReports reports
    return some reports

/-- Lists the versions of a module. -/
def versions (p : Project) (s : Selector) : Action Tree (Outcome (List Version)) :=
  p.chain.versions s

/-- Removes all entries of the cache. -/
def clearCache (p : Project) : Action Tree (Except CacheError Unit) := p.cache.clear

end Project
end ArtifactResolver
