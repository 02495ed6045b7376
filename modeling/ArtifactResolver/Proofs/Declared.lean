import ArtifactResolver.Proofs.Accesses
import ArtifactResolver.Proofs.Chain.Cached
import ArtifactResolver.Proofs.Companions
import ArtifactResolver.Proofs.Inheritance

/-!
# What the metadata answers by itself

Some lookups are answered by the metadata that comes with them: the artifacts of a configuration
that it declares, and that it does not declare a configuration. The first local half answers them
with the artifacts, and every local half with the failure, without a look at the cache; the remote
halves have nothing to add. Offline, the halves in their place add a failure of their own all the
same, as they do for every lookup.
-/

namespace ArtifactResolver

variable {σ α : Type}

namespace Query

variable {m : Metadata} {category : Category} {name : String} {artifacts : List Artifact}

theorem declared?_of_artifactsOf? (h : m.artifactsOf? category.configurationName = some artifacts) :
    (Query.artifacts m category).declared? = some (.resolved artifacts) := by
  simp only [declared?, h]

theorem declared?_of_unknown (h : m.configuration? name = none) :
    (Query.artifacts m (.configuration name)).declared? =
      some (.failed (.unknownConfiguration m.coordinate name)) := by
  simp only [declared?, Category.configurationName, Metadata.artifactsOf?_eq_none_iff.2 h]

end Query

/-- What the metadata answers takes no access to the cache or to the site. -/
theorem Repository.pendingLocal_of_declared {q : Query α} {o : Outcome α} (h : q.declared? = some o)
    (r : Repository σ) : r.pendingLocal q = .done o := by
  rw [pendingLocal, h]

namespace Chain

open Environment

variable {p : Policy} {repositories : List (Repository σ)} {q : Query α}

/-- In every mode the local halves come first. -/
theorem halves_decorate (p : Policy) (repositories : List (Repository σ)) :
    ∃ behind, (p.decorate repositories).halves =
      (repositories.map fun r => (r.name, r.localHalf)) ++ behind := by
  cases hp : p.offline with
  | false => exact ⟨_, halves_online hp repositories⟩
  | true => exact ⟨_, halves_offline hp repositories⟩

/-- With a value in the metadata, the first local half is the only half that is asked. -/
theorem verdict_of_declared_value (hne : repositories ≠ []) {value : α}
    (hd : q.declared? = some (.resolved value)) (p : Policy) (w : World σ) :
    (p.decorate repositories).Verdict q w 1 (.resolved value) w := by
  obtain ⟨behind, hhalves⟩ := halves_decorate p repositories
  obtain ⟨r, rest, rfl⟩ := List.exists_cons_of_ne_nil hne
  have hfirst : (p.decorate (r :: rest)).halves = [] ++ (r.name, r.localHalf) ::
      ((rest.map fun r => (r.name, r.localHalf)) ++ behind) := hhalves
  exact .resolved hfirst (.nil w) (by simp) (Installation.localHalf_declared hd r w)

/-- With a failure in the metadata, every local half fails with it, and offline every half in the
place of a remote one fails as well. -/
theorem lookup_of_declared_failure (hne : repositories ≠ []) {f : Failure}
    (hd : q.declared? = some (.failed f)) (p : Policy) (w : World σ) :
    (p.decorate repositories).lookup q w = .ok (.failed (.exhausted q.operation q.subject
      ((repositories.map fun r => (r.name, f)) ++
        if p.offline then
          repositories.map fun r => (r.name, .offline q.operation q.offlineSubject)
        else []))) w := by
  have hnil : (repositories.map fun r => (r.name, f)) ≠ [] := by simpa using hne
  have hlocal : ∀ after, ask q.operation q.subject (·.answer q) []
      ((repositories.map fun r => (r.name, r.localHalf)) ++ after) w =
        ask q.operation q.subject (·.answer q) (repositories.map fun r => (r.name, f)) after w := by
    intro after
    rw [ask_still _ (fun _ => .failed f)
      (fun r _ => Installation.localHalf_declared hd r w) (fun _ _ => rfl)]
    simp [Outcome.failed, Outcome.failure?]
  rw [lookup_eq_ask]
  cases hp : p.offline with
  | false =>
    rw [halves_online hp, hlocal,
      ask_unset _ fun r _ => Installation.remoteHalf_declared hd rfl r w, ask_nil hnil]
    simp
  | true =>
    rw [halves_offline hp, hlocal,
      ← List.append_nil (repositories.map fun r => (r.name, offlineHalf)),
      ask_still _ _ (fun _ _ => offlineHalf_answer q w) (fun _ _ => rfl), ask_nil (by simp [hne])]
    simp [Outcome.failed, Outcome.failure?]

/-- Declared artifacts come from the metadata alone, whatever the mode, the caches and the sites:
the lookup is the action that does nothing but answer with them. Only one half is asked, a local
one, and it makes no access. Online, the lookup of a configuration that is not declared does nothing
either, and fails with one failure for every repository in turn. -/
theorem declared_from_metadata (hne : repositories ≠ []) (p : Policy) (m : Metadata) :
    (∀ category, m.configuration? category.configurationName ≠ none → ∃ artifacts,
      m.artifactsOf? category.configurationName = some artifacts ∧
      (p.decorate repositories).artifacts m category = pure (.resolved artifacts) ∧
      (∀ w, (p.decorate repositories).Verdict (.artifacts m category) w 1
        (.resolved artifacts) w) ∧
      ∀ r ∈ repositories, r.pendingLocal (.artifacts m category) = .done (.resolved artifacts)) ∧
    (p.offline = false → ∀ name, m.configuration? name = none →
      (p.decorate repositories).artifacts m (.configuration name) =
        pure (.failed (.exhausted .artifacts
          (artifactsSubject (.configuration name) m.coordinate)
          (repositories.map fun r => (r.name, .unknownConfiguration m.coordinate name))))) := by
  constructor
  · intro category hdeclared
    obtain ⟨artifacts, hartifacts⟩ := Metadata.exists_artifactsOf? hdeclared
    have hd := Query.declared?_of_artifactsOf? hartifacts
    have hverdict := verdict_of_declared_value hne hd p
    exact ⟨artifacts, hartifacts, funext fun w => (hverdict w).lookup_eq, hverdict,
      fun r _ => r.pendingLocal_of_declared hd⟩
  · intro hp name hunknown
    funext w
    have hlookup := lookup_of_declared_failure hne (Query.declared?_of_unknown hunknown) p w
    rw [hp, if_neg Bool.false_ne_true, List.append_nil] at hlookup
    exact hlookup

/-- The sources that the metadata declares are the answer although neither site has them, and
online nobody declares `api`. -/
theorem declared_sources_found :
    let sources : Artifact := ⟨plainMetadata.coordinate, "lib", "src", "jar", some "all"⟩
    let m : Metadata := { plainMetadata with
      configurations := [("sources", { name := "sources", artifacts := [sources] })] }
    let chain := ({} : Policy).decorate [repositoryA, repositoryB]
    chain.artifacts m .sources = pure (.resolved [sources]) ∧
    chain.artifacts m (.configuration "api") = pure (.failed (.exhausted .artifacts
      "configuration api of g:lib:1.0"
      [("a", .unknownConfiguration m.coordinate "api"),
        ("b", .unknownConfiguration m.coordinate "api")])) := by
  intro sources m chain
  have hne : [repositoryA, repositoryB] ≠ [] := by simp
  have hset : m.artifactsOf? "sources" = some [sources] := by decide
  obtain ⟨hdeclared, hunknown⟩ := declared_from_metadata hne {} m
  obtain ⟨artifacts, hartifacts, hpure, -⟩ := hdeclared .sources (by decide)
  obtain rfl := Option.some.inj (hset.symm.trans hartifacts)
  exact ⟨hpure, hunknown rfl "api" (by decide)⟩

/-- How an undeclared configuration fails. Every repository says that the configuration is not
declared, in every mode; that is all there is to it online. Offline the half in the place of each
remote one has its say as well, although the remote one would have had none, so the failure as a
whole comes from working offline. -/
theorem unknown_configuration_failures (hne : repositories ≠ []) (m : Metadata) {name : String}
    (h : m.configuration? name = none) (p : Policy) :
    ∃ failures, (p.decorate repositories).artifacts m (.configuration name) =
        pure (.failed (.exhausted .artifacts
          (artifactsSubject (.configuration name) m.coordinate) failures)) ∧
      failures = (repositories.map fun r => (r.name, .unknownConfiguration m.coordinate name)) ++
        (if p.offline then
          repositories.map fun r => (r.name, .offline .artifacts m.coordinate.display) else []) ∧
      failures.filter (fun f => !f.2.isOffline) =
        repositories.map (fun r => (r.name, .unknownConfiguration m.coordinate name)) ∧
      (Failure.exhausted .artifacts (artifactsSubject (.configuration name) m.coordinate)
        failures).isOffline = p.offline := by
  refine ⟨_, funext (lookup_of_declared_failure hne (Query.declared?_of_unknown h) p), rfl, ?_, ?_⟩
  · rw [List.filter_append, List.filter_eq_self.2 (by simp [Failure.isOffline])]
    cases p.offline <;> simp [Query.operation, Failure.isOffline]
  · rw [Failure.isOffline, Bool.eq_iff_iff, Failure.anyOffline_iff]
    cases p.offline with
    | false => simp [Failure.isOffline]
    | true =>
      obtain ⟨r, rest, rfl⟩ := List.exists_cons_of_ne_nil hne
      refine ⟨fun _ => rfl, fun _ => ⟨(r.name, .offline .artifacts m.coordinate.display), ?_, rfl⟩⟩
      exact List.mem_append_right _ List.mem_cons_self

/-- Two repositories, offline: four failures, two of which come from working offline. -/
theorem unknown_configuration_failed_offline :
    ∃ failures, (({ offline := true } : Policy).decorate [repositoryA, repositoryB]).artifacts
        plainMetadata (.configuration "api") =
      pure (.failed (.exhausted .artifacts "configuration api of g:lib:1.0" failures)) ∧
      failures = [("a", .unknownConfiguration plainMetadata.coordinate "api"),
        ("b", .unknownConfiguration plainMetadata.coordinate "api"),
        ("a", .offline .artifacts "g:lib:1.0"), ("b", .offline .artifacts "g:lib:1.0")] := by
  have hne : [repositoryA, repositoryB] ≠ [] := by simp
  have hunknown : plainMetadata.configuration? "api" = none := rfl
  obtain ⟨failures, hlookup, hfailures, -⟩ :=
    unknown_configuration_failures hne plainMetadata hunknown { offline := true }
  exact ⟨failures, hlookup, hfailures⟩

/-- One repository: its lookup offline does not fail as it does online, and the failure is blamed on
working offline. -/
theorem unknown_configuration_blamed :
    ∃ online offline : Failure,
      (({} : Policy).decorate [repositoryA]).artifacts plainMetadata (.configuration "api") =
        pure (.failed online) ∧
      (({ offline := true } : Policy).decorate [repositoryA]).artifacts plainMetadata
        (.configuration "api") = pure (.failed offline) ∧
      online ≠ offline ∧ online.isOffline = false ∧ offline.isOffline = true := by
  refine ⟨.exhausted .artifacts "configuration api of g:lib:1.0"
      [("a", .unknownConfiguration plainMetadata.coordinate "api")],
    .exhausted .artifacts "configuration api of g:lib:1.0"
      [("a", .unknownConfiguration plainMetadata.coordinate "api"),
        ("a", .offline .artifacts "g:lib:1.0")], rfl, rfl, by simp, rfl, rfl⟩

end Chain
end ArtifactResolver
