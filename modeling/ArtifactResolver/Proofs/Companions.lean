import ArtifactResolver.Proofs.Chain.Cached

/-!
# Companions in a chain

A repository that has no companion to offer says so with a value, the empty set, and a chain takes
the first value that it comes to. So of all repositories whose probes are answered it is the first
one that decides, also where it has nothing and a later one has the file.
-/

namespace ArtifactResolver

variable {σ : Type}

namespace Repository

/-- The site says that the artifact is at the place that the format has for it. -/
def Publishes (r : Repository σ) (env : σ) (a : Artifact) : Prop :=
  r.probed env (r.format.artifactLocation a) = .ok (.ok true)

section Probe

variable {r : Repository σ} {w : World σ} {m : Metadata} {category : Category}
  {candidate : Artifact} (hc : category.candidate? m.coordinate m.extension = some candidate)
  (hrecord : r.store.age w.env (.artifactSet r.name m.coordinate category) = .ok none)

include hrecord

theorem trusted_of_no_record : r.trusted w.env (.artifacts m category) = .ok none := by
  have hage : r.store.age w.env (r.key (.artifacts m category)) = .ok none := hrecord
  rw [trusted_eq, hage]

theorem not_offers_of_no_record (value : List Artifact) :
    ¬ r.Offers w.env (.artifacts m category) value := by
  rintro ⟨⟨age, hage, _⟩, _⟩
  cases hage.symm.trans hrecord

include hc

/-- A probe that fails fails the lookup in its repository, and changes nothing. -/
theorem remoteHalf_of_failed_probe {e : TransportError}
    (hp : r.probed w.env (r.format.artifactLocation candidate) = .ok (.error e)) :
    ∃ f w', r.remoteHalf.answer (.artifacts m category) w = .ok (.failed f) w' ∧
      w'.env = w.env ∧ w'.calls = w.calls ++ [r.probeCall candidate] := by
  have hsite := r.siteContent_of_candidate hc w.env
  rw [hp] at hsite
  obtain ⟨env', hseen, hcase⟩ := remoteHalf_answers_site (not_offers_of_no_record hrecord)
    (r.call?_of_candidate hc) fun _ _ => rfl
  obtain ⟨f, hanswer⟩ : ∃ f, r.siteAnswer w.env (.artifacts m category) = .ok (.failed f) := by
    rw [siteAnswer, hsite]
    exact ⟨_, rfl⟩
  rw [hanswer] at hseen hcase
  obtain ⟨w', ha, rfl, hcalls⟩ := Action.seen_eq_ok_iff.1 hseen
  rcases hcase with ⟨_, _, hv, _⟩ | ⟨_, henv⟩
  · cases hv
  · exact ⟨f, w', ha, henv, hcalls⟩

/-- A probe that is answered gives the candidate or the empty set. -/
theorem remoteHalf_of_probe {found : Bool}
    (hp : r.probed w.env (r.format.artifactLocation candidate) = .ok (.ok found)) :
    ∃ w', r.remoteHalf.answer (.artifacts m category) w =
        .ok (.resolved (if found then [candidate] else [])) w' ∧
      w'.calls = w.calls ++ [r.probeCall candidate] := by
  have hsite := r.siteContent_of_candidate hc w.env
  rw [hp] at hsite
  obtain ⟨env', hseen, _⟩ := remoteHalf_answers_site (not_offers_of_no_record hrecord)
    (r.call?_of_candidate hc) fun _ _ => rfl
  rw [siteAnswer_eq_resolved_iff.2 ⟨_, hsite, decode_encode_candidate hc found⟩] at hseen
  obtain ⟨w', ha, _, hcalls⟩ := Action.seen_eq_ok_iff.1 hseen
  exact ⟨w', ha, hcalls⟩

end Probe
end Repository

namespace Chain

variable {p : Policy} {w : World σ} {m : Metadata} {category : Category} {candidate : Artifact}
  (hc : category.candidate? m.coordinate m.extension = some candidate)

include hc in
/-- A companion that the metadata does not declare is not answered by the metadata. -/
theorem undeclared_of_candidate (hd : m.artifactsOf? category.configurationName = none) :
    (Query.artifacts m category).declared? = none := by
  cases category with
  | configuration name => cases hc
  | documentation => simp only [Query.declared?, hd]
  | sources => simp only [Query.declared?, hd]

include hc in
/-- Repositories whose probes fail leave a lookup with their failures, one call each. -/
theorem ask_of_failed_probes {failing : List (Repository σ)}
    (hrecords : ∀ r ∈ failing,
      r.store.age w.env (.artifactSet r.name m.coordinate category) = .ok none)
    (hprobes : ∀ r ∈ failing,
      ∃ e, r.probed w.env (r.format.artifactLocation candidate) = .ok (.error e))
    (failures : List (String × Failure)) (after : List (String × Half σ)) :
    ∃ failures' w', w'.env = w.env ∧
      w'.calls = w.calls ++ failing.map (·.probeCall candidate) ∧
      ask .artifacts (artifactsSubject category m.coordinate) (·.artifacts m category) failures
          (failing.map (fun r => (r.name, r.remoteHalf)) ++ after) w =
        ask .artifacts (artifactsSubject category m.coordinate) (·.artifacts m category) failures'
          after w' := by
  induction failing generalizing w failures with
  | nil => exact ⟨failures, w, rfl, (List.append_nil _).symm, rfl⟩
  | cons r rest ih =>
    obtain ⟨e, he⟩ := hprobes r List.mem_cons_self
    obtain ⟨f, w₁, ha, henv, hcalls⟩ :=
      Repository.remoteHalf_of_failed_probe hc (hrecords r List.mem_cons_self) he
    obtain ⟨failures', w₂, henv₂, hcalls₂, hask⟩ := ih (w := w₁)
      (fun r' hr' => by rw [henv]; exact hrecords r' (List.mem_cons_of_mem _ hr'))
      (fun r' hr' => by rw [henv]; exact hprobes r' (List.mem_cons_of_mem _ hr'))
      (failures ++ [(r.name, f)])
    refine ⟨failures', w₂, henv₂.trans henv, ?_, ?_⟩
    · rw [hcalls₂, hcalls, List.append_assoc, List.map_cons, List.singleton_append]
    · have ha : r.remoteHalf.artifacts m category w = .ok (.failed f) w₁ := ha
      rw [List.map_cons, List.cons_append, ask_cons]
      simp only [ha]
      exact hask

include hc in
/-- Without records of earlier probes, the first repository whose probe is answered decides. -/
theorem artifacts_of_first_answer (hp : p.offline = false)
    (hd : m.artifactsOf? category.configurationName = none)
    (failing : List (Repository σ)) {after : List (Repository σ)} {first : Repository σ}
    {found : Bool} (hrecords : ∀ r ∈ failing ++ first :: after,
      r.store.age w.env (.artifactSet r.name m.coordinate category) = .ok none)
    (hfailing : ∀ r ∈ failing,
      ∃ e, r.probed w.env (r.format.artifactLocation candidate) = .ok (.error e))
    (hfirst : first.probed w.env (first.format.artifactLocation candidate) = .ok (.ok found)) :
    ∃ w', (p.decorate (failing ++ first :: after)).artifacts m category w =
        .ok (.resolved (if found then [candidate] else [])) w' ∧
      w'.calls = w.calls ++ (failing ++ [first]).map (·.probeCall candidate) := by
  have hlocal : ∀ r ∈ failing ++ first :: after,
      r.localHalf.answer (.artifacts m category) w = .ok .unset w := by
    intro r hr
    rw [r.localHalf_answer, Repository.localAnswer_of_undeclared (undeclared_of_candidate hc hd),
      Repository.trusted_of_no_record (hrecords r hr)]
    rfl
  obtain ⟨failures, w₁, henv, hcalls, hask⟩ := ask_of_failed_probes hc
    (fun r hr => hrecords r (List.mem_append_left _ hr)) hfailing []
    ((first.name, first.remoteHalf) :: after.map fun r => (r.name, r.remoteHalf))
  have hrecord : first.store.age w₁.env (.artifactSet first.name m.coordinate category) =
      .ok none := by
    rw [henv]
    exact hrecords first (List.mem_append_right _ List.mem_cons_self)
  obtain ⟨w₂, ha, hcalls₂⟩ := Repository.remoteHalf_of_probe hc hrecord (henv.symm ▸ hfirst)
  refine ⟨w₂, ?_, ?_⟩
  · have hstill := ask_still (q := .artifacts m category) (w := w)
      (fun r : Repository σ => (r.name, r.localHalf)) (fun _ => .unset) hlocal (fun _ _ => rfl) []
      ((failing ++ first :: after).map fun r => (r.name, r.remoteHalf))
    have hnone : (failing ++ first :: after).filterMap (fun r : Repository σ =>
        (Outcome.unset : Outcome (List Artifact)).failure?.map (r.name, ·)) = [] :=
      List.filterMap_eq_nil_iff.2 fun _ _ => rfl
    have hlookup := lookup_eq_ask (p.decorate (failing ++ first :: after)) (.artifacts m category)
    rw [show (p.decorate (failing ++ first :: after)).artifacts m category = _ from hlookup,
      halves_online hp, hstill, hnone, List.append_nil, List.map_append, List.map_cons]
    refine hask.trans ?_
    have ha : first.remoteHalf.artifacts m category w₁ = _ := ha
    rw [ask_cons]
    simp only [ha]
    rfl
  · rw [hcalls₂, hcalls, List.map_append, List.append_assoc]
    rfl

/-- Online and without records of earlier probes, where no probe fails, the set of undeclared
companions has the candidate exactly if the first repository publishes it. The later ones are not
asked. Where there are no repositories, the set is missing. -/
theorem companion_iff_first_publishes {p : Policy} (hp : p.offline = false)
    {repositories : List (Repository σ)} {m : Metadata} {category : Category} {candidate : Artifact}
    (hc : category.candidate? m.coordinate m.extension = some candidate)
    (hd : m.artifactsOf? category.configurationName = none) {w : World σ}
    (hrecords : ∀ r ∈ repositories,
      r.store.age w.env (.artifactSet r.name m.coordinate category) = .ok none)
    (hprobes : ∀ r ∈ repositories,
      ∃ found, r.probed w.env (r.format.artifactLocation candidate) = .ok (.ok found)) :
    ∃ o w', (p.decorate repositories).artifacts m category w = .ok o w' ∧
      ((∃ set, o = .resolved set ∧ candidate ∈ set) ↔
        ∃ first ∈ repositories.head?, first.Publishes w.env candidate) ∧
      (repositories = [] → o = .missing) ∧
      (repositories ≠ [] → ∃ set, o = .resolved set ∧ ∀ a ∈ set, a = candidate) ∧
      w'.calls = w.calls ++ (repositories.take 1).map (·.probeCall candidate) := by
  cases repositories with
  | nil =>
    refine ⟨.missing, w, rfl, ?_, fun _ => rfl, fun h => absurd rfl h, (List.append_nil _).symm⟩
    constructor
    · rintro ⟨set, hset, _⟩
      cases hset
    · rintro ⟨first, hfirst, _⟩
      cases hfirst
  | cons first after =>
    obtain ⟨found, hfound⟩ := hprobes first List.mem_cons_self
    obtain ⟨w', ha, hcalls⟩ := artifacts_of_first_answer hc hp hd [] hrecords (by simp) hfound
    refine ⟨_, w', ha, ?_, fun h => absurd h (List.cons_ne_nil _ _), fun _ => ⟨_, rfl, ?_⟩, hcalls⟩
    · simp only [Repository.Publishes, List.head?_cons, Option.mem_some_iff, exists_eq_left']
      rw [hfound]
      cases found <;> simp [Outcome.resolved]
    · cases found <;> simp

end Chain

/-! ## Two repositories -/

namespace Environment

/-- The metadata of a module version that says nothing of its sources. -/
def plainMetadata : Metadata := { coordinate := ⟨"g", "lib", "1.0"⟩ }

/-- Its sources, as they are guessed. -/
def guessedSources : Artifact := ⟨⟨"g", "lib", "1.0"⟩, "lib", "source", "jar", some "sources"⟩

/-- A site that has the sources, or nothing at all. -/
def sourcesSite (published : Bool) : Site :=
  if published then { resources := [("g/lib/1.0/lib-1.0-sources.jar", [1])] } else {}

/-- The first of two repositories. -/
def repositoryA : Repository Environment :=
  ⟨"a", Format.toml {}, memoryStore, siteTransport 0 none, {}⟩

/-- The second of two repositories. -/
def repositoryB : Repository Environment :=
  ⟨"b", Format.toml {}, memoryStore, siteTransport 1 none, {}⟩

/-- A world with an empty cache, where each of the two repositories has the sources or not. -/
def sourcesWorld (inA inB : Bool) : World Environment :=
  { env := { sites := [sourcesSite inA, sourcesSite inB] } }

variable (inA inB : Bool)

theorem no_records : ∀ r ∈ [repositoryA, repositoryB], r.store.age (sourcesWorld inA inB).env
    (.artifactSet r.name plainMetadata.coordinate .sources) = .ok none := by
  simp only [List.forall_mem_cons]
  exact ⟨rfl, rfl, by simp⟩

theorem guessedSources_location :
    (Format.toml {}).artifactLocation guessedSources = "g/lib/1.0/lib-1.0-sources.jar" := by
  decide +kernel

theorem probed_repositoryA : repositoryA.probed (sourcesWorld inA inB).env
    (repositoryA.format.artifactLocation guessedSources) = .ok (.ok inA) := by
  rw [show repositoryA.format = Format.toml {} from rfl, guessedSources_location]
  cases inA <;> cases inB <;> rfl

theorem probed_repositoryB : repositoryB.probed (sourcesWorld inA inB).env
    (repositoryB.format.artifactLocation guessedSources) = .ok (.ok inB) := by
  rw [show repositoryB.format = Format.toml {} from rfl, guessedSources_location]
  cases inA <;> cases inB <;> rfl

theorem probes_answered : ∀ r ∈ [repositoryA, repositoryB],
    ∃ found, r.probed (sourcesWorld inA inB).env (r.format.artifactLocation guessedSources) =
      .ok (.ok found) := by
  simp only [List.forall_mem_cons]
  exact ⟨⟨inA, probed_repositoryA inA inB⟩, ⟨inB, probed_repositoryB inA inB⟩, by simp⟩

/-- Sources that the first repository publishes are found. -/
theorem sources_of_first_found :
    ∃ set w', (({} : Policy).decorate [repositoryA, repositoryB]).artifacts plainMetadata .sources
        (sourcesWorld true false) = .ok (.resolved set) w' ∧ guessedSources ∈ set := by
  have hc : Category.sources.candidate? plainMetadata.coordinate plainMetadata.extension =
    some guessedSources := rfl
  obtain ⟨o, w', ha, hiff, _⟩ := Chain.companion_iff_first_publishes (p := {}) rfl hc rfl
    (no_records true false) (probes_answered true false)
  obtain ⟨set, rfl, hset⟩ := hiff.2 ⟨repositoryA, rfl, probed_repositoryA true false⟩
  exact ⟨set, w', ha, hset⟩

/-- Sources that only the second repository publishes are not found, although every probe is
answered: the empty set of the first repository stands in front of them. -/
theorem sources_of_second_hidden :
    Category.sources.candidate? plainMetadata.coordinate plainMetadata.extension =
        some guessedSources ∧
      plainMetadata.artifactsOf? Category.sources.configurationName = none ∧
      (∀ r ∈ [repositoryA, repositoryB], r.store.age (sourcesWorld false true).env
        (.artifactSet r.name plainMetadata.coordinate .sources) = .ok none) ∧
      (∀ r ∈ [repositoryA, repositoryB], ∃ found, r.probed (sourcesWorld false true).env
        (r.format.artifactLocation guessedSources) = .ok (.ok found)) ∧
      repositoryB.Publishes (sourcesWorld false true).env guessedSources ∧
      ∃ w', (({} : Policy).decorate [repositoryA, repositoryB]).artifacts plainMetadata .sources
        (sourcesWorld false true) = .ok (.resolved []) w' := by
  have hc : Category.sources.candidate? plainMetadata.coordinate plainMetadata.extension =
    some guessedSources := rfl
  have hd : plainMetadata.artifactsOf? Category.sources.configurationName = none := rfl
  obtain ⟨w', ha, _⟩ := Chain.artifacts_of_first_answer (p := {}) hc rfl hd []
    (no_records false true) (by simp) (probed_repositoryA false true)
  exact ⟨hc, hd, no_records false true, probes_answered false true,
    probed_repositoryB false true, w', ha⟩

end Environment
end ArtifactResolver
