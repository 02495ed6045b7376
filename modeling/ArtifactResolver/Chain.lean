import ArtifactResolver.Repository

/-!
# Chains

A chain asks its repositories in turn: first the local halves of all of them, then the remote ones.
The first value ends the lookup. Failures are kept until all have been asked, and count only if
nobody had a value; if there are none either, what was looked up does not exist.
-/

namespace ArtifactResolver

/-- A sequence of repositories. -/
structure Chain (σ : Type) where
  /-- The repositories in the order in which they are asked. -/
  members : List (Member σ) := []

namespace Chain

variable {σ α : Type}

/-- The halves in the order in which they are asked, each with the name of its repository. -/
def halves (c : Chain σ) : List (String × Half σ) :=
  (c.members.map fun member => (member.name, member.localHalf)) ++
    c.members.map fun member => (member.name, member.remoteHalf)

/-- Asks halves in turn, once the given failures have been collected. -/
def ask (operation : Operation) (subject : String) (lookup : Half σ → Action σ (Outcome α)) :
    List (String × Failure) → List (String × Half σ) → Action σ (Outcome α)
  | [], [] => return .missing
  | failures, [] => return .failed (.exhausted operation subject failures)
  | failures, (name, half) :: rest => do
    match (← lookup half).resolution with
    | some (.resolved value) => return .resolved value
    | some (.failed failure) => ask operation subject lookup (failures ++ [(name, failure)]) rest
    | some .missing => ask operation subject lookup failures rest
    | none => ask operation subject lookup failures rest

/-- Looks something up in all repositories. -/
def resolve (c : Chain σ) (operation : Operation) (subject : String)
    (lookup : Half σ → Action σ (Outcome α)) : Action σ (Outcome α) :=
  ask operation subject lookup [] c.halves

/-- Lists the versions of a module. -/
def versions (c : Chain σ) (s : Selector) : Action σ (Outcome (List Version)) :=
  c.resolve .listing s.moduleName (·.versions s)

/-- Resolves the metadata of a module version. -/
def metadata (c : Chain σ) (coordinate : Coordinate) : Action σ (Outcome Metadata) :=
  c.resolve .metadata coordinate.display (·.metadata coordinate)

/-- Resolves the artifacts of a category. -/
def artifacts (c : Chain σ) (m : Metadata) (category : Category) :
    Action σ (Outcome (List Artifact)) :=
  c.resolve .artifacts (artifactsSubject category m.coordinate) (·.artifacts m category)

/-- Makes an artifact available as a file. -/
def artifact (c : Chain σ) (a : Artifact) : Action σ (Outcome Located) :=
  c.resolve .artifact a.display (·.artifact a)

/-- Resolves the metadata of the version that a selector asks for: the named one, or the greatest
listed one that the constraint accepts. -/
def select (c : Chain σ) (s : Selector) : Action σ (Outcome Metadata) := do
  match s.toCoordinate? with
  | some coordinate => c.metadata coordinate
  | none =>
    match (← c.versions s).resolution with
    | some (.resolved versions) =>
      match s.constraint.select versions with
      | some version => c.metadata (s.withVersion version)
      | none => return .missing
    | some (.failed failure) => return .failed failure
    | some .missing => return .missing
    | none => return .missing

end Chain
end ArtifactResolver
