import ArtifactResolver.Format.Registry
import ArtifactResolver.Proofs.Cache.Key
import ArtifactResolver.Proofs.Cache.Map
import ArtifactResolver.Proofs.Chain.Order
import ArtifactResolver.Proofs.Chain.Session

/-!
# Working offline

An offline session never calls a site and never changes its environment, whatever it is asked for.
Its lookups have a value exactly if the local half of some repository has one, and fail otherwise in
a way that tells that the session is offline.
-/

namespace ArtifactResolver

variable {σ α β : Type}

/-! ## Quiet actions -/

/-- The action always ends with a value, calls no site and leaves the environment as it is. -/
def Action.Quiet (a : Action σ α) : Prop :=
  ∀ w, ∃ v w', a w = .ok v w' ∧ w'.calls = w.calls ∧ w'.env = w.env

namespace Action.Quiet

theorem pure (v : α) : Quiet (Pure.pure v : Action σ α) := fun w => ⟨v, w, rfl, rfl, rfl⟩

theorem log (level : Level) (text : String) : Quiet (Action.log level text : Action σ Unit) :=
  fun _ => ⟨(), _, rfl, rfl, rfl⟩

theorem bind {a : Action σ α} {f : α → Action σ β} (ha : Quiet a) (hf : ∀ v, Quiet (f v)) :
    Quiet (a >>= f) := by
  intro w
  obtain ⟨v, w₁, h₁, hc₁, he₁⟩ := ha w
  obtain ⟨u, w₂, h₂, hc₂, he₂⟩ := hf v w₁
  exact ⟨u, w₂, by rw [bind_apply, h₁]; exact h₂, hc₂.trans hc₁, he₂.trans he₁⟩

theorem map {a : Action σ α} (f : α → β) (ha : Quiet a) : Quiet (f <$> a) := by
  intro w
  obtain ⟨v, w', h, hc, he⟩ := ha w
  exact ⟨f v, w', by rw [map_apply, h], hc, he⟩

theorem mapM {f : α → Action σ β} (hf : ∀ v, Quiet (f v)) (l : List α) : Quiet (l.mapM f) := by
  induction l with
  | nil => exact pure []
  | cons v rest ih =>
    rw [List.mapM_cons]
    exact (hf v).bind fun _ => ih.bind fun _ => pure _

end Action.Quiet

/-- The local half of a repository is quiet. -/
theorem Repository.localHalf_quiet (r : Repository σ) (q : Query α) :
    (r.localHalf.answer q).Quiet :=
  fun w => ⟨_, w, r.localHalf_answer q w, rfl, rfl⟩

/-- How failures of an offline lookup speak of what was looked up. -/
def Query.offlineSubject : Query α → String
  | .versions s => s.display
  | .metadata c => c.display
  | .artifacts m _ => m.coordinate.display
  | .artifact a => a.display

/-- The half that stands in for a remote one fails every lookup. -/
theorem offlineHalf_answer (q : Query α) (w : World σ) :
    offlineHalf.answer q w = .ok (.failed (.offline q.operation q.offlineSubject)) w := by
  cases q <;> rfl

/-- A list of failures comes from working offline if one of them does. -/
theorem Failure.anyOffline_iff {failures : List (String × Failure)} :
    anyOffline failures = true ↔ ∃ f ∈ failures, f.2.isOffline = true := by
  induction failures with
  | nil => simp [anyOffline]
  | cons f rest ih =>
    obtain ⟨name, failure⟩ := f
    simp [anyOffline, ih]

namespace Chain

variable {c : Chain σ}

/-- A lookup of halves that are quiet is quiet. -/
theorem lookup_quiet {q : Query α} (h : ∀ half ∈ c.halves, (half.2.answer q).Quiet) :
    (c.lookup q).Quiet := by
  have hask : ∀ (halves : List (String × Half σ)) (failures : List (String × Failure)),
      (∀ half ∈ halves, (half.2.answer q).Quiet) →
      (ask q.operation q.subject (·.answer q) failures halves).Quiet := by
    intro halves
    induction halves with
    | nil =>
      intro failures _ w
      cases failures with
      | nil => exact ⟨_, w, ask_nil_nil, rfl, rfl⟩
      | cons f rest => exact ⟨_, w, ask_nil (by simp), rfl, rfl⟩
    | cons half rest ih =>
      intro failures hq
      obtain ⟨name, half⟩ := half
      have hrest := fun failures => ih failures fun half hh => hq half (List.mem_cons_of_mem _ hh)
      rw [ask]
      refine (hq (name, half) List.mem_cons_self).bind fun o => ?_
      rcases o with ⟨_ | value | failure | _⟩
      · exact hrest failures
      · exact .pure _
      · exact hrest (failures ++ [(name, failure)])
      · exact hrest failures
  rw [lookup_eq_ask]
  exact hask c.halves [] h

section Composed

variable (h : ∀ {α : Type} (q : Query α), (c.lookup q).Quiet)
include h

theorem select_quiet (s : Selector) : (c.select s).Quiet := by
  unfold select
  cases s.toCoordinate? with
  | some coordinate => exact h (.metadata coordinate)
  | none =>
    refine (h (.versions s)).bind fun o => ?_
    rcases o with ⟨_ | versions | failure | _⟩
    · exact .pure _
    · dsimp only
      cases s.constraint.select versions with
      | none => exact .pure _
      | some version => exact h (.metadata (s.withVersion version))
    · exact .pure _
    · exact .pure _

theorem report_quiet (request : ModuleRequest) (s : Selector) : (c.report request s).Quiet := by
  have hdownload : ∀ artifacts : List Artifact, (c.download artifacts).Quiet := fun artifacts =>
    .mapM (fun a => (h (.artifact a)).bind fun _ => .pure _) artifacts
  have hcategory : ∀ m category, (c.resolveCategory m request.download category).Quiet :=
    fun m category => (h (.artifacts m category)).bind fun _ => (hdownload _).bind fun _ => .pure _
  unfold report
  refine (Action.Quiet.log _ _).bind fun _ => (select_quiet h s).bind fun o => ?_
  rcases o with ⟨_ | m | failure | _⟩
  · exact .pure _
  · exact (Action.Quiet.mapM (hcategory m) request.categories).bind fun _ => .pure _
  · exact .pure _
  · exact (Action.Quiet.log _ _).bind fun _ => .pure _

theorem perform_quiet (task : Task) : (c.perform task).Quiet := by
  cases task with
  | versions s => exact (h (.versions s)).map _
  | metadata coordinate => exact (h (.metadata coordinate)).map _
  | artifacts m category => exact (h (.artifacts m category)).map _
  | artifact a => exact (h (.artifact a)).map _
  | select s => exact (select_quiet h s).map _
  | report request s => exact (report_quiet h request s).map _

/-- A run of tasks that are quiet leaves only what happened from outside. -/
theorem run_quiet (steps : List ((σ → σ) × Task)) (w : World σ) :
    ∃ w', c.run steps w = .ok () w' ∧ w'.calls = w.calls ∧
      w'.env = steps.foldl (fun env step => step.1 env) w.env := by
  induction steps generalizing w with
  | nil => exact ⟨w, rfl, rfl, rfl⟩
  | cons step rest ih =>
    obtain ⟨outside, task⟩ := step
    obtain ⟨_, w₁, h₁, hc₁, he₁⟩ := perform_quiet h task { w with env := outside w.env }
    obtain ⟨w₂, h₂, hc₂, he₂⟩ := ih w₁
    refine ⟨w₂, ?_, hc₂.trans hc₁, by rw [he₂, he₁]; rfl⟩
    simp only [run, Action.bind_apply, Action.env_apply, Action.setEnv_apply, h₁, h₂]

end Composed

/-! ## Sessions that are offline -/

section Offline

variable {p : Policy} {repositories : List (Repository σ)} {q : Query α} {w : World σ}

theorem lookup_offline_quiet (hp : p.offline = true) (repositories : List (Repository σ))
    (q : Query α) : ((p.decorate repositories).lookup q).Quiet := by
  refine lookup_quiet fun half hh => ?_
  rw [halves_offline hp, List.mem_append, List.mem_map, List.mem_map] at hh
  rcases hh with ⟨r, _, rfl⟩ | ⟨r, _, rfl⟩
  · exact r.localHalf_quiet q
  · exact fun w => ⟨_, w, offlineHalf_answer q w, rfl, rfl⟩

/-- The answers of the halves of a session that is offline. -/
def offlineAnswers (repositories : List (Repository σ)) (env : σ) (q : Query α) :
    List (Outcome α) :=
  (repositories.map fun r => r.localAnswer env q) ++
    repositories.map fun _ => .failed (.offline q.operation q.offlineSubject)

theorem answers_offline (hp : p.offline = true) (repositories : List (Repository σ))
    (q : Query α) (w : World σ) :
    Answers q w (p.decorate repositories).halves (offlineAnswers repositories w.env q) w := by
  rw [halves_offline hp]
  exact (Answers.of_still _ _ fun r _ => r.localHalf_answer q w).append
    (Answers.of_still _ _ fun r _ => offlineHalf_answer q w)

/-- Without a value in any local half, a lookup fails in a way that tells why. -/
theorem lookup_offline_of_unresolved (hp : p.offline = true) (hne : repositories ≠ [])
    (hu : ∀ r ∈ repositories, (r.localAnswer w.env q).isResolved = false) :
    ∃ f, (p.decorate repositories).lookup q w = .ok (.failed f) w ∧ f.isOffline = true := by
  have ha := answers_offline hp repositories q w
  have hall : ∀ o ∈ offlineAnswers repositories w.env q, o.isResolved = false := by
    intro o ho
    rcases List.mem_append.1 ho with h | h
    · obtain ⟨r, hr, rfl⟩ := List.mem_map.1 h
      exact hu r hr
    · obtain ⟨r, _, rfl⟩ := List.mem_map.1 h
      rfl
  obtain ⟨r, rest, rfl⟩ := List.exists_cons_of_ne_nil hne
  have hf : ∃ o ∈ offlineAnswers (r :: rest) w.env q, o.isFailed = true :=
    ⟨.failed (.offline q.operation q.offlineSubject), by simp [offlineAnswers], rfl⟩
  refine ⟨_, (Verdict.exhausted ha hall hf).lookup_eq, ?_⟩
  rw [Failure.isOffline, Failure.anyOffline_iff]
  refine ⟨(r.name, .offline q.operation q.offlineSubject), ?_, rfl⟩
  rw [halves_offline hp, offlineAnswers, failuresOf_append (by simp), List.mem_append]
  exact Or.inr List.mem_cons_self

/-- With a value in some local half, a lookup has a value. -/
theorem lookup_offline_of_resolved (hp : p.offline = true) {r : Repository σ}
    (hr : r ∈ repositories) (hv : (r.localAnswer w.env q).isResolved = true) :
    ∃ v w', (p.decorate repositories).lookup q w = .ok (.resolved v) w' := by
  have ha := answers_offline hp repositories q w
  have hmem : r.localAnswer w.env q ∈ offlineAnswers repositories w.env q :=
    List.mem_append_left _ (List.mem_map.2 ⟨r, hr, rfl⟩)
  have hno : ∀ answers w', Answers q w (p.decorate repositories).halves answers w' →
      ¬ ∀ o ∈ answers, o.isResolved = false := by
    intro answers w' ha' hu
    obtain ⟨rfl, rfl⟩ := ha.unique ha'
    rw [hu _ hmem] at hv
    exact absurd hv (by simp)
  obtain ⟨o, w', hl, _⟩ := lookup_offline_quiet hp repositories q w
  obtain ⟨asked, h⟩ := verdict_of_lookup hl
  cases h with
  | resolved => exact ⟨_, _, hl⟩
  | exhausted ha' hu => exact absurd hu (hno _ _ ha')
  | missing ha' hu => exact absurd hu (hno _ _ ha')

/-- An offline session calls no site and changes nothing, whatever it is asked for and whatever
happens between its tasks. A lookup of a chain that is not empty has a value exactly if some local
half has one, and otherwise fails as offline; and the local half of a repository that trusts its
entries as the policy says has every value that is held at whatever age. -/
theorem offline_session {p : Policy} (hp : p.offline = true)
    (repositories : List (Repository σ)) :
    (∀ (steps : List ((σ → σ) × Task)) (w : World σ), ∃ w',
      (p.decorate repositories).run steps w = .ok () w' ∧ w'.calls = w.calls ∧
      w'.env = steps.foldl (fun env step => step.1 env) w.env) ∧
    (repositories ≠ [] → ∀ {α : Type} (q : Query α) (w : World σ),
      (∃ v w', (p.decorate repositories).lookup q w = .ok (.resolved v) w' ∧
        ∃ r ∈ repositories, ∃ u, r.localHalf.answer q w = .ok (.resolved u) w) ∨
      (∃ f, (p.decorate repositories).lookup q w = .ok (.failed f) w ∧ f.isOffline = true ∧
        ∀ r ∈ repositories, ∀ u w', r.localHalf.answer q w ≠ .ok (.resolved u) w')) ∧
    (∀ r ∈ repositories, r.rules = p.effectiveRules →
      ∀ {α : Type} (q : Query α) (w : World σ) (v : α),
        r.localHalf.answer q w = .ok (.resolved v) w ↔ r.Holds w.env q v) := by
  refine ⟨run_quiet fun q => lookup_offline_quiet hp repositories q, ?_, ?_⟩
  · intro hne α q w
    by_cases h : ∃ r ∈ repositories, (r.localAnswer w.env q).isResolved = true
    · obtain ⟨r, hr, hv⟩ := h
      obtain ⟨v, w', hl⟩ := lookup_offline_of_resolved hp hr hv
      obtain ⟨u, hu⟩ := Outcome.isResolved_iff.1 hv
      exact Or.inl ⟨v, w', hl, r, hr, u, by rw [r.localHalf_answer, hu]⟩
    · have hno : ∀ r ∈ repositories, (r.localAnswer w.env q).isResolved = false := by
        intro r hr
        simpa using fun hv => h ⟨r, hr, hv⟩
      obtain ⟨f, hl, hf⟩ := lookup_offline_of_unresolved hp hne hno
      refine Or.inr ⟨f, hl, hf, fun r hr u w' hu => ?_⟩
      rw [r.localHalf_answer, EStateM.Result.ok.injEq] at hu
      have := hno r hr
      rw [hu.1] at this
      exact absurd this (by simp [Outcome.resolved, Outcome.isResolved])
  · intro r _ hrules α q w v
    have htrust : r.rules.trust q.kind = .always := by rw [hrules, Policy.trust_of_offline hp]
    rw [r.localHalf_answer, EStateM.Result.ok.injEq, and_iff_left rfl,
      Repository.localAnswer_eq_resolved_iff htrust]

/-! ## An old entry -/

/-- A session that works offline and refreshes. -/
def disconnected : Policy := { offline := true, refresh := true }

/-- A repository of that session. There is no site. -/
def siteless (name : String) : Repository Environment :=
  ⟨name, Format.toml {}, Environment.memoryStore, Environment.siteTransport 0 none,
    disconnected.effectiveRules⟩

/-- A module, of which the greatest version is wanted. -/
def greatest : Selector := ⟨"g", "lib", .latest⟩

/-- A listing of its versions. -/
def oldListing : Bytes := Text.encode "versions = [\"1.0\"]\n"

/-- Ten days. -/
def tenDays : Duration := .ofSeconds (10 * 24 * 60 * 60)

/-- The cache has had the listing of the second of two repositories for ten days. -/
def oldCache : World Environment where
  env := { memory := { now := tenDays.millis, entries :=
    [((siteless "mirror").key (.versions greatest), ⟨oldListing, 0⟩)] } }

theorem entry_oldCache (key : Cache.Key) : (Environment.view []).entry oldCache.env key =
    if key = (siteless "mirror").key (.versions greatest) then some (oldListing, 0) else none := by
  by_cases hkey : key = (siteless "mirror").key (.versions greatest)
  · simp [Environment.view, Cache.Memory.view, oldCache, hkey]
  · simp [Environment.view, Cache.Memory.view, oldCache, List.lookup_cons, beq_false_of_ne hkey,
      hkey]

theorem occurs_oldCache : (Environment.view []).occurs oldCache.env := ⟨rfl, rfl⟩

theorem holds_oldListing :
    (siteless "mirror").Holds oldCache.env (.versions greatest) [⟨"1.0"⟩] := by
  have hs := Environment.memoryStore_shows []
  have hentry := entry_oldCache ((siteless "mirror").key (.versions greatest))
  rw [if_pos rfl] at hentry
  refine ⟨⟨tenDays, ?_⟩, oldListing, ?_, ?_⟩
  · refine (hs.age_eq occurs_oldCache _).trans ?_
    rw [hentry]
    rfl
  · refine (hs.read_eq occurs_oldCache _).trans ?_
    rw [hentry]
    rfl
  · exact Repository.toOption_eq_some_iff.1 (by decide +kernel)

theorem not_holds_metadata (name : String) (c : Coordinate) (m : Metadata) :
    ¬ (siteless name).Holds oldCache.env (.metadata c) m := by
  rintro ⟨⟨age, hage⟩, -⟩
  have hs := Environment.memoryStore_shows []
  have hne : (siteless name).key (.metadata c) ≠ (siteless "mirror").key (.versions greatest) := by
    intro h
    have hrequests : Cache.Key.ofRequest name (.descriptor c) =
      .ofRequest "mirror" (.listing "g" "lib") := h
    exact nomatch (Cache.Key.ofRequest_injective hrequests).2
  have hentry := entry_oldCache ((siteless name).key (.metadata c))
  rw [if_neg hne] at hentry
  have hnone := hs.age_eq occurs_oldCache ((siteless name).key (.metadata c))
  rw [hentry] at hnone
  cases hnone.symm.trans hage

/-- An entry that is older than the window of its kind answers an offline session, although it is
that of the second repository and the session is told to refresh. What no entry holds fails. -/
theorem old_listing_answers_offline :
    let c := disconnected.decorate [siteless "central", siteless "mirror"]
    Trust.standard.isFresh tenDays = false ∧
      (siteless "mirror").localHalf.answer (.versions greatest) oldCache =
        .ok (.resolved [⟨"1.0"⟩]) oldCache ∧
      (∃ v w', c.lookup (.versions greatest) oldCache = .ok (.resolved v) w') ∧
      (∃ f, c.lookup (.metadata ⟨"g", "lib", "1.0"⟩) oldCache = .ok (.failed f) oldCache ∧
        f.isOffline = true) ∧
      ∃ w', c.run [(id, .versions greatest), (.after 1000, .report {} greatest)] oldCache =
        .ok () w' ∧ w'.calls = [] ∧ w'.env = oldCache.env.after 1000 := by
  intro c
  obtain ⟨hrun, hlookup, hheld⟩ :=
    offline_session (p := disconnected) rfl [siteless "central", siteless "mirror"]
  have hmirror : (siteless "mirror").localHalf.answer (.versions greatest) oldCache =
      .ok (.resolved [⟨"1.0"⟩]) oldCache :=
    (hheld (siteless "mirror") (by simp) rfl _ _ _).2 holds_oldListing
  refine ⟨by decide, hmirror, ?_, ?_, hrun _ oldCache⟩
  · rcases hlookup (by simp) (.versions greatest) oldCache with ⟨v, w', hv, _⟩ | ⟨f, _, _, hno⟩
    · exact ⟨v, w', hv⟩
    · exact absurd hmirror (hno _ (by simp) _ _)
  · rcases hlookup (by simp) (.metadata ⟨"g", "lib", "1.0"⟩) oldCache with
      ⟨_, _, _, r, hr, u, hu⟩ | ⟨f, hf, ho, _⟩
    · obtain ⟨name, rfl⟩ : ∃ name, r = siteless name := by
        simp only [List.mem_cons, List.not_mem_nil, or_false] at hr
        exact hr.elim (fun h => ⟨_, h⟩) fun h => ⟨_, h⟩
      exact absurd ((hheld _ hr rfl _ _ _).1 hu) (not_holds_metadata _ _ _)
    · exact ⟨f, hf, ho⟩

end Offline

end Chain
end ArtifactResolver
