import ArtifactResolver.Proofs.Chain.Online
import ArtifactResolver.Proofs.Companions

/-!
# What the cache can say

The cache is asked first, and what it can say is settled by the policy and the entries alone. Where
an entry can be used, the first one answers, and neither an earlier entry that is stale or corrupt
nor a site has a part in that. A session that refreshes can use no entry, so two caches cannot be
told apart by its lookups.
-/

namespace ArtifactResolver

variable {σ α : Type}

/-! ## The first entry -/

namespace Chain

/-- The first repository with an entry that the policy lets it use answers the lookup, without a
call and without a change. Where there is none, an online lookup calls a site. -/
theorem first_entry_answers (p : Policy) (repositories : List (Repository σ)) {q : Query α}
    (hd : q.declared? = none) (w : World σ) :
    ((∃ r ∈ repositories, ∃ value, (r.under p).Offers w.env q value) →
      ∃ before first after value, repositories = before ++ first :: after ∧
        (∀ r ∈ before, ∀ value, ¬ (r.under p).Offers w.env q value) ∧
        (first.under p).Offers w.env q value ∧
        (p.chain repositories).lookup q w = .ok (.resolved value) w) ∧
    (p.offline = false → repositories ≠ [] →
      (∀ r ∈ repositories, ∀ value, ¬ (r.under p).Offers w.env q value) →
        ∃ call, w.calls ++ [call] <+:
          (((p.chain repositories).lookup q).finish w).2.calls) := by
  refine ⟨lookup_of_offer hd, fun hp hne hn => ?_⟩
  exact lookup_calls hd hp hne hn

end Chain

namespace Environment

/-- The sources of a module version, as they are looked up. -/
def sourcesQuery : Query (List Artifact) := .artifacts plainMetadata .sources

/-- A world without sites, in which the first of two repositories has a corrupt record, and the
second one has the record that there are sources. -/
def recordedWorld : World Environment where
  env := { memory := { now := 1000, entries := [(repositoryA.key sourcesQuery, ⟨[0xFF], 0⟩),
    (repositoryB.key sourcesQuery, ⟨ProbeRecord.encode [guessedSources], 0⟩)] } }

theorem sourcesKeys_ne : repositoryB.key sourcesQuery ≠ repositoryA.key sourcesQuery := by
  intro h
  rw [repositoryB.key_eq, repositoryA.key_eq] at h
  exact absurd (Cache.Key.ofRequest_injective h).1 (by decide)

theorem occurs_recordedWorld : (view []).occurs recordedWorld.env := ⟨rfl, rfl⟩

theorem first_record_unusable (value : List Artifact) :
    ¬ (repositoryA.under {}).Offers recordedWorld.env sourcesQuery value := by
  have hs : (repositoryA.under {}).store.Shows (view []) := memoryStore_shows []
  have hentry : (view []).entry recordedWorld.env (repositoryA.key sourcesQuery) =
      some ([0xFF], 0) := by
    simp [view, Cache.Memory.view, recordedWorld]
  have hfresh : (view []).fresh recordedWorld.env .standard (repositoryA.key sourcesQuery) =
      some [0xFF] := by
    rw [Cache.View.fresh, hentry]
    rfl
  rw [Repository.offers_iff_of_shows hs occurs_recordedWorld]
  rintro ⟨bytes, hbytes, hread⟩
  obtain rfl := Option.some.inj (hfresh.symm.trans hbytes)
  cases hread

theorem second_record_usable :
    (repositoryB.under {}).Offers recordedWorld.env sourcesQuery [guessedSources] := by
  have hs : (repositoryB.under {}).store.Shows (view []) := memoryStore_shows []
  have hentry : (view []).entry recordedWorld.env (repositoryB.key sourcesQuery) =
      some (ProbeRecord.encode [guessedSources], 0) := by
    simp [view, Cache.Memory.view, recordedWorld, List.lookup_cons, beq_false_of_ne sourcesKeys_ne]
  have hfresh : (view []).fresh recordedWorld.env .standard (repositoryB.key sourcesQuery) =
      some (ProbeRecord.encode [guessedSources]) := by
    rw [Cache.View.fresh, hentry]
    rfl
  have hc : Category.sources.candidate? plainMetadata.coordinate plainMetadata.extension =
    some guessedSources := rfl
  rw [Repository.offers_iff_of_shows hs occurs_recordedWorld]
  exact ⟨_, hfresh, Repository.decode_encode_candidate hc true⟩

theorem no_record_usable {inA inB : Bool} {r : Repository Environment}
    (hr : r ∈ [repositoryA, repositoryB]) (value : List Artifact) :
    ¬ (r.under {}).Offers (sourcesWorld inA inB).env sourcesQuery value := by
  rintro ⟨⟨age, hage, _⟩, _⟩
  have hnone : (r.under {}).store.age (sourcesWorld inA inB).env ((r.under {}).key sourcesQuery) =
    .ok none := no_records inA inB r hr
  rw [hage] at hnone
  cases hnone

/-- The record of the second repository is used behind the corrupt one of the first, although no
site is there. Without records a site is called. -/
theorem second_record_used :
    (({} : Policy).chain [repositoryA, repositoryB]).lookup sourcesQuery recordedWorld =
        .ok (.resolved [guessedSources]) recordedWorld ∧
      ∃ call, [call] <+: (((({} : Policy).chain [repositoryA, repositoryB]).lookup
        sourcesQuery).finish (sourcesWorld true false)).2.calls := by
  have hd : sourcesQuery.declared? = none := rfl
  constructor
  · obtain ⟨before, first, after, value, hsplit, hb, hfirst, hlookup⟩ :=
      (Chain.first_entry_answers {} [repositoryA, repositoryB] hd recordedWorld).1
        ⟨repositoryB, by simp, _, second_record_usable⟩
    obtain rfl : first = repositoryB := by
      rcases before with _ | ⟨r, _ | ⟨r', before⟩⟩
      · obtain rfl := (List.cons.inj hsplit).1
        exact absurd hfirst (first_record_unusable value)
      · exact (List.cons.inj (List.cons.inj hsplit).2).1.symm
      · cases before <;> cases hsplit
    rw [hlookup, hfirst.unique second_record_usable]
  · exact (Chain.first_entry_answers {} [repositoryA, repositoryB] hd (sourcesWorld true false)).2
      rfl (by simp) fun r hr value => no_record_usable hr value

end Environment

/-! ## Refreshing -/

/-- Accesses to the store that do not fail: every age can be told, and every write succeeds. -/
structure Cache.Store.Serviceable (s : Cache.Store σ) (env : σ) : Prop where
  age_ok : ∀ key, ∃ age, s.age env key = .ok age
  write_ok : ∀ key bytes, (s.write env key bytes).1 = .ok ()

/-- A session that refreshes trusts no entry. -/
theorem Policy.trust_of_refresh {p : Policy} (hr : p.refresh = true) (hp : p.offline = false)
    (kind : EntryKind) : p.effectiveRules.trust kind = .never := by
  have hmode : p.mode = .refresh := by simp [mode, hp, hr]
  rw [effectiveRules, hmode]
  cases kind <;> rfl

namespace Repository

variable {r : Repository σ} {env : σ} {q : Query α} (ht : r.rules.trust q.kind = .never)
include ht

theorem not_offers_of_never (value : α) : ¬ r.Offers env q value := by
  rintro ⟨⟨age, _, hfresh⟩, _⟩
  rw [ht] at hfresh
  simp [Trust.never, Trust.isFresh] at hfresh

theorem localAnswer_of_never (hs : r.store.Serviceable env) (hd : q.declared? = none) :
    r.localAnswer env q = .unset := by
  obtain ⟨age, hage⟩ := hs.age_ok (r.key q)
  rw [localAnswer_of_undeclared hd, trusted_eq, hage, ht]
  cases age with
  | none => rfl
  | some age => simp [Trust.never, Trust.isFresh, answerOf]

end Repository

namespace Chain

variable {p : Policy} {repositories : List (Repository σ)} {q : Query α}

theorem siteCalls_congr {env env' : σ}
    (h : ∀ r ∈ repositories, r.siteAnswer env q = r.siteAnswer env' q) :
    siteCalls q env repositories = siteCalls q env' repositories := by
  induction repositories with
  | nil => rfl
  | cons r rest ih =>
    rw [siteCalls, siteCalls, h r List.mem_cons_self,
      ih fun r' hr' => h r' (List.mem_cons_of_mem _ hr')]

/-- A lookup that refreshes ends as the sites answer, if no access to the cache fails. -/
theorem lookup_of_refresh (hr : p.refresh = true) (hp : p.offline = false) {w : World σ}
    (hs : ∀ r ∈ repositories, r.store.Serviceable w.env) (hd : q.declared? = none) :
    ∃ e', ((p.chain repositories).lookup q).seen w =
      (siteOutcome q [] w.env repositories, e', w.calls ++ siteCalls q w.env repositories) := by
  have ht : ∀ r : Repository σ, (r.under p).rules.trust q.kind = .never :=
    fun _ => Policy.trust_of_refresh hr hp q.kind
  have hfailures : entryFailures p repositories w.env q = [] := by
    refine List.filterMap_eq_nil_iff.2 fun r hmem => ?_
    rw [Repository.localAnswer_of_never (ht r) (hs r hmem) hd]
    rfl
  have hk : ∀ r ∈ repositories, ∀ bytes value,
      r.keptOutcome w.env q bytes value = .resolved value := by
    intro r hmem bytes value
    exact Repository.keptOutcome_of_write ((hs r hmem).write_ok _ _) value
  obtain ⟨outcome, e', hout, hseen, _⟩ := lookup_of_sites hd hp
    (fun r _ => Repository.not_offers_of_never (ht r)) hk
  rw [hfailures] at hout
  exact ⟨e', hout ▸ hseen⟩

/-- Refreshing makes the cache unobservable. Against any two caches of which no access fails, and
sites that reply in the same way, a lookup ends in the same way and makes the same calls, and at
least one of them if there is a repository. -/
theorem refresh_hides_cache (hr : p.refresh = true) (hp : p.offline = false) {w₁ w₂ : World σ}
    (hs₁ : ∀ r ∈ repositories, r.store.Serviceable w₁.env)
    (hs₂ : ∀ r ∈ repositories, r.store.Serviceable w₂.env)
    (hsites : ∀ r ∈ repositories, r.transport.Static (· ∈ [w₁.env, w₂.env]))
    (hd : q.declared? = none) :
    ∃ result calls w₁' w₂', ((p.chain repositories).lookup q).finish w₁ = (result, w₁') ∧
      ((p.chain repositories).lookup q).finish w₂ = (result, w₂') ∧
      w₁'.calls = w₁.calls ++ calls ∧ w₂'.calls = w₂.calls ++ calls ∧
      (repositories ≠ [] → calls ≠ []) := by
  have hanswer : ∀ r ∈ repositories, r.siteAnswer w₁.env q = r.siteAnswer w₂.env q := by
    intro r hmem
    exact Repository.siteAnswer_of_static (hsites r hmem) (by simp) (by simp) q
  have houtcome : siteOutcome q [] w₁.env repositories = siteOutcome q [] w₂.env repositories := by
    rw [siteOutcome, siteOutcome, List.map_congr_left fun r hmem => by rw [hanswer r hmem]]
  obtain ⟨e₁, h₁⟩ := lookup_of_refresh hr hp hs₁ hd
  obtain ⟨e₂, h₂⟩ := lookup_of_refresh hr hp hs₂ hd
  rw [houtcome, siteCalls_congr hanswer, Action.seen_eq_finish] at h₁
  rw [Action.seen_eq_finish] at h₂
  obtain ⟨hresult₁, _, hcalls₁⟩ := by simpa only [Prod.mk.injEq] using h₁
  obtain ⟨hresult₂, _, hcalls₂⟩ := by simpa only [Prod.mk.injEq] using h₂
  refine ⟨_, _, _, _, Prod.ext hresult₁ rfl, Prod.ext hresult₂ rfl, hcalls₁, hcalls₂, ?_⟩
  intro hne
  exact siteCalls_ne_nil hd w₂.env hne

end Chain

namespace Environment

/-- A memory of which no access is made to fail. -/
theorem memoryStore_serviceable {e : Environment} (h : e.memory.faults = []) :
    memoryStore.Serviceable e where
  age_ok key := ⟨_, (memoryStore_shows e.sites).age_eq ⟨h, rfl⟩ key⟩
  write_ok key bytes := (memoryStore_shows e.sites).write_eq ⟨h, rfl⟩ key bytes

/-- A repository that has the sources is asked for them although its record says that there are
none, in the same way as with an empty cache. -/
theorem sources_refreshed :
    let c := ({ refresh := true } : Policy).chain [repositoryA]
    let misled : World Environment := { env := { (sourcesWorld true false).env with
      memory := { entries := [(repositoryA.key sourcesQuery, ⟨ProbeRecord.encode [], 0⟩)] } } }
    ∃ result calls, ((c.lookup sourcesQuery).finish (sourcesWorld true false)).1 = result ∧
      ((c.lookup sourcesQuery).finish misled).1 = result ∧
      ((c.lookup sourcesQuery).finish (sourcesWorld true false)).2.calls = calls ∧
      ((c.lookup sourcesQuery).finish misled).2.calls = calls ∧ calls ≠ [] := by
  intro c misled
  have hsites : ∀ e ∈ [(sourcesWorld true false).env, misled.env],
      e.memory.faults = [] ∧ e.sites = [sourcesSite true, sourcesSite false] := by
    simp only [List.forall_mem_cons]
    exact ⟨⟨rfl, rfl⟩, ⟨rfl, rfl⟩, by simp⟩
  have hs : ∀ e ∈ [(sourcesWorld true false).env, misled.env], ∀ r ∈ [repositoryA],
      r.store.Serviceable e := by
    intro e he r hr
    obtain rfl := List.mem_singleton.1 hr
    exact memoryStore_serviceable (hsites e he).1
  have hstatic : ∀ r ∈ [repositoryA],
      r.transport.Static (· ∈ [(sourcesWorld true false).env, misled.env]) := by
    intro r hr
    obtain rfl := List.mem_singleton.1 hr
    constructor <;> intro e e' he he' <;>
      simp only [repositoryA, siteTransport, Site.transport, (hsites e he).2, (hsites e' he').2]
  obtain ⟨result, calls, w₁', w₂', h₁, h₂, hc₁, hc₂, hne⟩ :=
    Chain.refresh_hides_cache (p := { refresh := true }) rfl rfl (hs _ (by simp)) (hs _ (by simp))
      hstatic (q := sourcesQuery) rfl
  refine ⟨result, calls, ?_, ?_, ?_, ?_, hne (by simp)⟩
  · exact congrArg (·.1) h₁
  · exact congrArg (·.1) h₂
  · exact (congrArg (·.2.calls) h₁).trans hc₁
  · exact (congrArg (·.2.calls) h₂).trans hc₂

end Environment
end ArtifactResolver
