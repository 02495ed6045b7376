import ArtifactResolver.Cache.Store
import ArtifactResolver.Format
import ArtifactResolver.Policy
import ArtifactResolver.ProbeRecord
import ArtifactResolver.Transport

/-!
# Repositories

A repository has two halves, which answer the same four lookups. The local half looks at the cache
only, and leaves the outcome open when the cache has nothing that is trusted. The remote half asks
the site of the repository, and keeps what it got in the cache; it looks at the cache once more
before it asks, because another lookup of the same entry may have filled it in the meantime. Working
offline puts a third half in place of the remote one, which fails every lookup.
-/

namespace ArtifactResolver

variable {σ : Type}

/-- One half of a repository: how it answers each of the lookups. -/
structure Half (σ : Type) where
  /-- Lists the versions of a module. -/
  versions : Selector → Action σ (Outcome (List Version))
  /-- Resolves the metadata of a module version. -/
  metadata : Coordinate → Action σ (Outcome Metadata)
  /-- Resolves the artifacts of a category. -/
  artifacts : Metadata → Category → Action σ (Outcome (List Artifact))
  /-- Makes an artifact available as a file. -/
  artifact : Artifact → Action σ (Outcome Located)

/-- A repository as a chain sees it. -/
structure Member (σ : Type) where
  /-- The name of the repository. -/
  name : String
  /-- The half that is asked first. -/
  localHalf : Half σ
  /-- The half that is asked when no local half has an answer. -/
  remoteHalf : Half σ

/-- A repository with a cache and a site. -/
structure Repository (σ : Type) where
  /-- The name of the repository, by which its entries are kept apart from those of others. -/
  name : String
  /-- How its files are found and read. -/
  format : Format
  /-- Where its entries are cached. -/
  store : Cache.Store σ
  /-- The way to its site. -/
  transport : Transport σ
  /-- How long its entries are trusted. -/
  rules : Rules

/-- How failures speak of a version listing. -/
def listingSubject (s : Selector) : String := s!"version listing of {s.moduleName}"

/-- How failures speak of the artifacts of a category. -/
def artifactsSubject (category : Category) (c : Coordinate) : String :=
  s!"{category.display} of {c.display}"

namespace Repository

/-- Answers from a trusted entry of the cache, and leaves the outcome open if there is none. -/
def readCached {α : Type} (r : Repository σ) (key : Cache.Key) (kind : EntryKind) (subject : String)
    (parse : Bytes → Except ParseError α) : Action σ (Outcome α) := Answering.outcome do
  match r.store.readFresh (← (Action.env : Action σ σ)) (r.rules.trust kind) key with
  | .ok (some bytes) =>
    match parse bytes with
    | .ok value => Answering.write (.resolved value)
    | .error e => Answering.write (.failed (.parse subject r.name e))
  | .ok none => return ()
  | .error e => Answering.write (.failed (.cache subject r.name e))

/-- What a trusted entry of the cache holds, none if it cannot be used for whatever reason. -/
def recheck {α : Type} (r : Repository σ) (key : Cache.Key) (kind : EntryKind)
    (parse : Bytes → Except ParseError α) : Action σ (Option α) := do
  match r.store.readFresh (← Action.env) (r.rules.trust kind) key with
  | .ok (some bytes) => return (parse bytes).toOption
  | _ => return none

/-- Keeps content in the cache. That it cannot be kept does not fail the lookup. -/
def keep (r : Repository σ) (key : Cache.Key) (bytes : Bytes) : Action σ Unit := do
  match ← r.store.put key bytes with
  | .ok _ => return ()
  | .error e => Action.log .warn s!"Could not cache {key.text}: {e.message}"

/-- Answers from the site of the repository, unless the cache got a trusted entry in the meantime.
Content that can be read is kept, other content is not. -/
def fetchAndParse {α : Type} (r : Repository σ) (operation : Operation) (key : Cache.Key)
    (kind : EntryKind) (location subject : String) (parse : Bytes → Except ParseError α) :
    Action σ (Outcome α) :=
  Action.withLock key <| Answering.outcome do
    match ← r.recheck key kind parse with
    | some value => Answering.write (.resolved value)
    | none =>
      match ← r.transport.fetchFor r.name location with
      | .ok (some bytes) =>
        match parse bytes with
        | .ok value => do
          r.keep key bytes
          Answering.write (.resolved value)
        | .error e => Answering.write (.failed (.parse subject r.name e))
      | .ok none => Answering.write .missing
      | .error e => Answering.write (.failed (.transport operation subject r.name e))

/-- The place of an artifact in the cache, if its entry is there and trusted. -/
def cachedArtifact (r : Repository σ) (env : σ) (a : Artifact) :
    Except CacheError (Option Located) := do
  let key := Cache.Key.artifact r.name a
  if ← r.store.hasFresh env r.rules.artifacts key then return some ⟨a, r.store.path key⟩
  else return none

/-- Lists versions from the cache. -/
def cachedVersions (r : Repository σ) (s : Selector) : Action σ (Outcome (List Version)) :=
  r.readCached (.listing r.name s) .listing (listingSubject s) r.format.readVersions

/-- Lists versions from the site. -/
def fetchVersions (r : Repository σ) (s : Selector) : Action σ (Outcome (List Version)) :=
  r.fetchAndParse .listing (.listing r.name s) .listing (r.format.listingLocation s)
    (listingSubject s) r.format.readVersions

/-- Resolves metadata from the cache. -/
def cachedMetadata (r : Repository σ) (c : Coordinate) : Action σ (Outcome Metadata) :=
  r.readCached (.descriptor r.name c) .descriptor c.display (r.format.readMetadata c)

/-- Resolves metadata from the site. -/
def fetchMetadata (r : Repository σ) (c : Coordinate) : Action σ (Outcome Metadata) :=
  r.fetchAndParse .metadata (.descriptor r.name c) .descriptor (r.format.descriptorLocation c)
    c.display (r.format.readMetadata c)

/-- Resolves the artifacts of a category without asking the site: those that the metadata declares,
or those that a probe has found before. -/
def knownArtifacts (r : Repository σ) (m : Metadata) (category : Category) :
    Action σ (Outcome (List Artifact)) :=
  match m.artifactsOf? category.configurationName, category with
  | some artifacts, _ => return .resolved artifacts
  | none, .configuration name => return .failed (.unknownConfiguration m.coordinate name)
  | none, _ =>
    r.readCached (.artifactSet r.name m.coordinate category) .artifact
      (artifactsSubject category m.coordinate) (ProbeRecord.decode m.coordinate)

/-- Resolves the companions of a module by a probe for the one file that they may be. There is no
probe for the artifacts of a configuration. -/
def probeArtifacts (r : Repository σ) (m : Metadata) (category : Category) :
    Action σ (Outcome (List Artifact)) :=
  match category.candidate? m.coordinate m.extension with
  | none => return .unset
  | some candidate =>
    let key := Cache.Key.artifactSet r.name m.coordinate category
    Action.withLock key <| Answering.outcome do
      match ← r.recheck key .artifact (ProbeRecord.decode m.coordinate) with
      | some artifacts => Answering.write (.resolved artifacts)
      | none =>
        match ← r.transport.probeFor r.name (r.format.artifactLocation candidate) with
        | .ok found => do
          let artifacts := if found then [candidate] else []
          r.keep key (ProbeRecord.encode artifacts)
          Answering.write (.resolved artifacts)
        | .error e =>
          Answering.write (.failed (.transport .artifacts
            (artifactsSubject category m.coordinate) r.name e))

/-- Finds an artifact in the cache. -/
def locateArtifact (r : Repository σ) (a : Artifact) : Action σ (Outcome Located) :=
  Answering.outcome do
    match r.cachedArtifact (← (Action.env : Action σ σ)) a with
    | .ok (some located) => Answering.write (.resolved located)
    | .ok none => return ()
    | .error e => Answering.write (.failed (.cache a.display r.name e))

/-- Downloads an artifact into the cache. -/
def downloadArtifact (r : Repository σ) (a : Artifact) : Action σ (Outcome Located) := do
  let key := Cache.Key.artifact r.name a
  Action.withLock key <| Answering.outcome do
    match r.cachedArtifact (← (Action.env : Action σ σ)) a with
    | .ok (some located) => Answering.write (.resolved located)
    | .ok none => fetchInto key
    | .error e => do
      (Action.log .warn s!"Ignoring unreadable cache entry for {a.display}: {e.message}" :
        Action σ Unit)
      fetchInto key
where
  /-- Asks the site for the content and keeps it. Content that cannot be kept has no file to be
  found at, so that fails the lookup. -/
  fetchInto (key : Cache.Key) : Answering σ Located Unit := do
    match ← r.transport.fetchFor r.name (r.format.artifactLocation a) with
    | .ok (some bytes) =>
      match ← r.store.put key bytes with
      | .ok _ => do
        (Action.log .info s!"Downloaded {a.display} from {r.name}" : Action σ Unit)
        Answering.write (.resolved ⟨a, r.store.path key⟩)
      | .error e => Answering.write (.failed (.cache a.display r.name e))
    | .ok none => Answering.write .missing
    | .error e => Answering.write (.failed (.transport .artifact a.display r.name e))

/-- The half that looks at the cache. -/
def localHalf (r : Repository σ) : Half σ :=
  ⟨r.cachedVersions, r.cachedMetadata, r.knownArtifacts, r.locateArtifact⟩

/-- The half that asks the site. -/
def remoteHalf (r : Repository σ) : Half σ :=
  ⟨r.fetchVersions, r.fetchMetadata, r.probeArtifacts, r.downloadArtifact⟩

/-- The repository as a chain sees it. -/
def member (r : Repository σ) : Member σ := ⟨r.name, r.localHalf, r.remoteHalf⟩

end Repository

/-- The answer of a half that may not ask any site. -/
def unavailable {α : Type} (operation : Operation) (subject : String) : Action σ (Outcome α) :=
  Answering.outcome (Answering.write (.failed (.offline operation subject)))

/-- The half that takes the place of a remote one when a session works offline. -/
def offlineHalf : Half σ where
  versions s := unavailable .listing s.display
  metadata c := unavailable .metadata c.display
  artifacts m _ := unavailable .artifacts m.coordinate.display
  artifact a := unavailable .artifact a.display

/-- The repository without its site. -/
def Member.offline (p : Member σ) : Member σ := { p with remoteHalf := offlineHalf }

/-- The repository as the settings of a session leave it. -/
def Policy.apply (p : Policy) (member : Member σ) : Member σ :=
  if p.mode = .offline then member.offline else member

end ArtifactResolver
