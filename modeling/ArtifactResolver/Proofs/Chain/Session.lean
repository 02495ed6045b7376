import ArtifactResolver.Proofs.Repository.Local
import ArtifactResolver.Report

/-!
# Sessions

A session asks the same repositories again and again, each time as its policy leaves them: with the
trust of the policy in their entries, and without their sites when it is offline. Between two
requests the environment may change from outside; time passes at least.
-/

namespace ArtifactResolver

variable {σ α : Type}

/-- The repositories as the sequence that a session asks, each as the policy leaves it. -/
def Policy.decorate (p : Policy) (repositories : List (Repository σ)) : Chain σ :=
  ⟨repositories.map fun r => p.apply r.member⟩

/-- The repository with the trust that a policy has in its entries. -/
def Repository.under (r : Repository σ) (p : Policy) : Repository σ :=
  { r with rules := p.effectiveRules }

/-- An offline session trusts entries at any age. -/
theorem Policy.trust_of_offline {p : Policy} (hp : p.offline = true) (kind : EntryKind) :
    p.effectiveRules.trust kind = .always := by
  rw [effectiveRules, mode, hp]
  cases kind <;> rfl

/-- The chain of a session with the given policy. -/
def Policy.chain (p : Policy) (repositories : List (Repository σ)) : Chain σ :=
  p.decorate (repositories.map (·.under p))

/-- What a session can be asked for. -/
inductive Task where
  /-- The versions of a module. -/
  | versions (s : Selector)
  /-- The metadata of a module version. -/
  | metadata (c : Coordinate)
  /-- The artifacts of a category. -/
  | artifacts (m : Metadata) (category : Category)
  /-- The file of an artifact. -/
  | artifact (a : Artifact)
  /-- The metadata of the version that a selector asks for. -/
  | select (s : Selector)
  /-- All that is wanted of a module. -/
  | report (request : ModuleRequest) (s : Selector)

namespace Chain

/-- Does a task and forgets the result. -/
def perform (c : Chain σ) : Task → Action σ Unit
  | .versions s => (fun _ => ()) <$> c.versions s
  | .metadata coordinate => (fun _ => ()) <$> c.metadata coordinate
  | .artifacts m category => (fun _ => ()) <$> c.artifacts m category
  | .artifact a => (fun _ => ()) <$> c.artifact a
  | .select s => (fun _ => ()) <$> c.select s
  | .report request s => (fun _ => ()) <$> c.report request s

/-- Does tasks one after the other. Each of them comes with what happens to the environment before
it from outside. -/
def run (c : Chain σ) : List ((σ → σ) × Task) → Action σ Unit
  | [] => return ()
  | (outside, task) :: rest => do
    Action.setEnv (outside (← Action.env))
    c.perform task
    run c rest

/-- The halves of a session that may use the sites. -/
theorem halves_online {p : Policy} (hp : p.offline = false) (repositories : List (Repository σ)) :
    (p.decorate repositories).halves = (repositories.map fun r => (r.name, r.localHalf)) ++
      repositories.map fun r => (r.name, r.remoteHalf) := by
  have hmode : p.mode ≠ .offline := by
    unfold Policy.mode
    rw [hp]
    cases p.refresh <;> simp
  simp [halves, Policy.decorate, Policy.apply, hmode, Repository.member, Function.comp_def]

/-- The halves of a session that is offline. -/
theorem halves_offline {p : Policy} (hp : p.offline = true) (repositories : List (Repository σ)) :
    (p.decorate repositories).halves = (repositories.map fun r => (r.name, r.localHalf)) ++
      repositories.map fun r => (r.name, offlineHalf) := by
  have hmode : p.mode = .offline := by simp [Policy.mode, hp]
  simp [halves, Policy.decorate, Policy.apply, hmode, Repository.member, Member.offline,
    Function.comp_def]

theorem halves_chain_online {p : Policy} (hp : p.offline = false)
    (repositories : List (Repository σ)) :
    (p.chain repositories).halves =
      (repositories.map fun r => (r.name, (r.under p).localHalf)) ++
        repositories.map fun r => (r.name, (r.under p).remoteHalf) := by
  rw [Policy.chain, halves_online hp, List.map_map, List.map_map]
  rfl

theorem halves_chain_offline {p : Policy} (hp : p.offline = true)
    (repositories : List (Repository σ)) :
    (p.chain repositories).halves =
      (repositories.map fun r => (r.name, (r.under p).localHalf)) ++
        repositories.map fun r => (r.name, offlineHalf) := by
  rw [Policy.chain, halves_offline hp, List.map_map, List.map_map]
  rfl

end Chain
end ArtifactResolver
