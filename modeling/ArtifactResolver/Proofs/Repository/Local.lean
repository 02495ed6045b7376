import ArtifactResolver.Proofs.Chain.Query

/-!
# What the local half answers

The local half of a repository answers every lookup in the same way: from what the metadata
declares, and otherwise from one entry of the cache. This module says which entry that is, how it is
read, and that the answer depends on the environment alone and leaves the world as it is.
-/

namespace ArtifactResolver

variable {σ α : Type}

namespace Query

/-- The answer for which neither the cache nor a site is needed: the artifacts that the metadata
declares, or that it does not declare the configuration. -/
def declared? : Query α → Option (Outcome α)
  | versions _ => none
  | metadata _ => none
  | artifacts m category =>
    match m.artifactsOf? category.configurationName, category with
    | some found, _ => some (.resolved found)
    | none, .configuration name => some (.failed (.unknownConfiguration m.coordinate name))
    | none, _ => none
  | artifact _ => none

/-- The metadata never answers that something could not be read. -/
theorem declared?_ne_parse (q : Query α) {subject name : String} {cause : ParseError} :
    q.declared? ≠ some (.failed (.parse subject name cause)) := by
  cases q with
  | artifacts m category =>
    simp only [declared?]
    split <;> simp [Outcome.failed, Outcome.resolved]
  | _ => simp [declared?]

/-- The kind of the entry that a lookup reads. -/
def kind : Query α → EntryKind
  | versions _ => .listing
  | metadata _ => .descriptor
  | artifacts _ _ => .artifact
  | artifact _ => .artifact

/-- How the failures of a repository speak of what was looked up. -/
def entrySubject : Query α → String
  | versions s => listingSubject s
  | metadata c => c.display
  | artifacts m category => artifactsSubject category m.coordinate
  | artifact a => a.display

end Query

namespace Repository

/-- The key of the entry that a lookup reads. -/
def key (r : Repository σ) : Query α → Cache.Key
  | .versions s => .listing r.name s
  | .metadata c => .descriptor r.name c
  | .artifacts m category => .artifactSet r.name m.coordinate category
  | .artifact a => .artifact r.name a

/-- How the content of an entry is read. Of an artifact only the place of its content counts. -/
def readBack (r : Repository σ) : Query α → Bytes → Except ParseError α
  | .versions _ => r.format.readVersions
  | .metadata c => r.format.readMetadata c
  | .artifacts m _ => ProbeRecord.decode m.coordinate
  | .artifact a => fun _ => .ok ⟨a, r.store.path (.artifact r.name a)⟩

/-- The content of the entry of a lookup, if it is there and trusted. Of an artifact only that
counts, and its content is left out. -/
def trusted (r : Repository σ) (env : σ) (q : Query α) : Except CacheError (Option Bytes) :=
  match q with
  | .artifact _ => (r.store.hasFresh env (r.rules.trust q.kind) (r.key q)).map fun fresh =>
      if fresh then some [] else none
  | q => r.store.readFresh env (r.rules.trust q.kind) (r.key q)

/-- The answer that the content of an entry gives. -/
def answerOf (r : Repository σ) (q : Query α) :
    Except CacheError (Option Bytes) → Outcome α
  | .ok (some bytes) =>
    match r.readBack q bytes with
    | .ok value => .resolved value
    | .error e => .failed (.parse q.entrySubject r.name e)
  | .ok none => .unset
  | .error e => .failed (.cache q.entrySubject r.name e)

/-- The answer of the local half in an environment. -/
def localAnswer (r : Repository σ) (env : σ) (q : Query α) : Outcome α :=
  match q.declared? with
  | some o => o
  | none => r.answerOf q (r.trusted env q)

/-- Reading an entry of the cache. -/
theorem readCached_apply (r : Repository σ) (key : Cache.Key) (kind : EntryKind) (subject : String)
    (parse : Bytes → Except ParseError α) (w : World σ) :
    r.readCached key kind subject parse w =
      .ok (match r.store.readFresh w.env (r.rules.trust kind) key with
        | .ok (some bytes) =>
          match parse bytes with
          | .ok value => .resolved value
          | .error e => .failed (.parse subject r.name e)
        | .ok none => .unset
        | .error e => .failed (.cache subject r.name e)) w := by
  unfold readCached
  rw [Answering.outcome_bind, Action.bind_apply, Action.env_apply]
  dsimp only
  rcases r.store.readFresh w.env (r.rules.trust kind) key with e | _ | bytes
  · rfl
  · rfl
  · dsimp only
    cases parse bytes <;> rfl

/-- The local half answers from the environment, and does nothing else. -/
theorem localHalf_answer (r : Repository σ) (q : Query α) (w : World σ) :
    r.localHalf.answer q w = .ok (r.localAnswer w.env q) w := by
  cases q with
  | versions s =>
    show r.cachedVersions s w = _
    rw [cachedVersions, readCached_apply]
    rfl
  | metadata c =>
    show r.cachedMetadata c w = _
    rw [cachedMetadata, readCached_apply]
    rfl
  | artifacts m category =>
    show r.knownArtifacts m category w = _
    cases h : m.artifactsOf? category.configurationName with
    | some found => simp only [knownArtifacts, localAnswer, Query.declared?, h, Action.pure_apply]
    | none =>
      cases category with
      | configuration name =>
        simp only [knownArtifacts, localAnswer, Query.declared?, h, Action.pure_apply]
      | documentation =>
        simp only [knownArtifacts, localAnswer, Query.declared?, h, readCached_apply]
        rfl
      | sources =>
        simp only [knownArtifacts, localAnswer, Query.declared?, h, readCached_apply]
        rfl
  | artifact a =>
    show r.locateArtifact a w = _
    unfold locateArtifact cachedArtifact
    rw [Answering.outcome_bind, Action.bind_apply, Action.env_apply]
    dsimp only [localAnswer, Query.declared?, trusted, key, Query.kind, Rules.trust]
    rcases r.store.hasFresh w.env r.rules.artifacts (.artifact r.name a) with e | _ | _ <;> rfl

/-- A lookup that is answered by the metadata is answered without the cache. -/
theorem localAnswer_of_declared {q : Query α} {o : Outcome α} (h : q.declared? = some o)
    (r : Repository σ) (env : σ) : r.localAnswer env q = o := by
  rw [localAnswer, h]

theorem localAnswer_of_undeclared {q : Query α} (h : q.declared? = none) (r : Repository σ)
    (env : σ) : r.localAnswer env q = r.answerOf q (r.trusted env q) := by
  rw [localAnswer, h]

/-! ## Entries of any age -/

/-- The content of the entry of a lookup at whatever age. That of an artifact is left out. -/
def content (r : Repository σ) (env : σ) (q : Query α) : Except CacheError (Option Bytes) :=
  match q with
  | .artifact _ => .ok (some [])
  | q => r.store.read env (r.key q)

/-- The repository has a value for a lookup without its site: the metadata declares it, or there is
an entry of whatever age that holds it. -/
def Holds (r : Repository σ) (env : σ) (q : Query α) (value : α) : Prop :=
  match q.declared? with
  | some o => o = .resolved value
  | none => (∃ age, r.store.age env (r.key q) = .ok (some age)) ∧
      ∃ bytes, r.content env q = .ok (some bytes) ∧ r.readBack q bytes = .ok value

/-- What is trusted, from the age of the entry and its content. -/
theorem trusted_eq (r : Repository σ) (env : σ) (q : Query α) :
    r.trusted env q = match r.store.age env (r.key q) with
      | .ok (some age) =>
        if (r.rules.trust q.kind).isFresh age then r.content env q else .ok none
      | .ok none => .ok none
      | .error e => .error e := by
  cases q with
  | artifact a =>
    dsimp only [trusted, content, Cache.Store.hasFresh]
    rcases r.store.age env (r.key (.artifact a)) with e | _ | age
    · rfl
    · rfl
    · cases hfresh : (r.rules.trust (Query.artifact a).kind).isFresh age <;>
        simp [Except.map, Except.bind, bind, pure, Except.pure, hfresh]
  | _ =>
    dsimp only [trusted, content, Cache.Store.readFresh]
    rcases r.store.age env _ with e | _ | age <;> rfl

/-- Where entries are trusted at any age, their age does not count. -/
theorem trusted_of_always {r : Repository σ} {q : Query α} (h : r.rules.trust q.kind = .always)
    (env : σ) : r.trusted env q = match r.store.age env (r.key q) with
      | .ok (some _) => r.content env q
      | .ok none => .ok none
      | .error e => .error e := by
  rw [trusted_eq, h]
  rfl

theorem toOption_eq_some_iff {result : Except ParseError α} {value : α} :
    result.toOption = some value ↔ result = .ok value := by
  cases result <;> simp [Except.toOption]

theorem answerOf_eq_resolved_iff {r : Repository σ} {q : Query α} {value : α}
    {found : Except CacheError (Option Bytes)} : r.answerOf q found = .resolved value ↔
      ∃ bytes, found = .ok (some bytes) ∧ r.readBack q bytes = .ok value := by
  rcases found with e | _ | bytes
  · simp [answerOf, Outcome.failed, Outcome.resolved]
  · simp [answerOf, Outcome.unset, Outcome.resolved]
  · dsimp only [answerOf]
    cases h : r.readBack q bytes <;> simp [h, Outcome.failed, Outcome.resolved]

/-- Where entries are trusted at any age, the local half has exactly the values that are held. -/
theorem localAnswer_eq_resolved_iff {r : Repository σ} {q : Query α}
    (h : r.rules.trust q.kind = .always) {env : σ} {value : α} :
    r.localAnswer env q = .resolved value ↔ r.Holds env q value := by
  cases hd : q.declared? with
  | some o => rw [localAnswer_of_declared hd, Holds, hd]
  | none =>
    rw [localAnswer_of_undeclared hd, answerOf_eq_resolved_iff, trusted_of_always h, Holds, hd]
    rcases r.store.age env (r.key q) with e | _ | age <;> simp

end Repository
end ArtifactResolver
