import ArtifactResolver.Cache.Directory
import ArtifactResolver.Cache.Memory
import ArtifactResolver.Site

/-!
# Environments

An environment with everything that stores and transports can be built on: a cache in memory, a file
tree, and sites in memory, which are told apart by their numbers.
-/

namespace ArtifactResolver

/-- What stores and transports are built on. -/
structure Environment where
  /-- A cache in memory. -/
  memory : Cache.Memory := {}
  /-- A file tree. -/
  files : Files.Tree := {}
  /-- Sites in memory. -/
  sites : List Site := []

namespace Environment

/-- The place of the cache in memory. -/
def memoryLens : Lens Environment Cache.Memory := ⟨(·.memory), fun m e => { e with memory := m }⟩

/-- The place of the file tree. -/
def filesLens : Lens Environment Files.Tree := ⟨(·.files), fun t e => { e with files := t }⟩

/-- The store in memory. -/
def memoryStore : Cache.Store Environment := Cache.Memory.store.within memoryLens

/-- The store in a directory. -/
def directoryStore (d : Cache.Directory) : Cache.Store Environment :=
  d.sessionStore.within filesLens

/-- The way to the site of a number. -/
def siteTransport (number : Nat) (limit : Option Duration) : Transport Environment :=
  Site.transport (fun e => e.sites[number]?) limit

/-- The way to the site in a directory. -/
def fileTransport (root : String) (limit : Option Duration) : Transport Environment :=
  FileSite.transport ⟨root⟩ filesLens limit

/-- Changes the site of a number. -/
def updateSite (number : Nat) (change : Site → Site) (e : Environment) : Environment :=
  { e with sites := e.sites.modify number change }

end Environment
end ArtifactResolver
