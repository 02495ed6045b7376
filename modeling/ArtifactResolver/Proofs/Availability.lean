import ArtifactResolver.Proofs.Precedence
import ArtifactResolver.Proofs.Provenance

/-!
# A bad cache never hides a module

The cache is there to save calls. An entry that cannot be read, whatever it holds and whatever
access to it fails, only sends the lookup on to the sites; so online, what some site has is found.
And what is found there replaces the entry, so that the repository answers from it again.
-/

namespace ArtifactResolver

variable {σ α : Type}

/-- The value is read from the content of a file or of a record, and not from where that is kept. -/
def Query.IsParsed : Query α → Prop
  | .artifact _ => False
  | _ => True

namespace Repository

variable {r : Repository σ} {env env' : σ} {q : Query α}

/-- Content that is parsed need not be kept for the lookup to have its value. -/
theorem keptOutcome_of_parsed (hq : q.IsParsed) (bytes : Bytes) (value : α) :
    r.keptOutcome env q bytes value = .resolved value := by
  cases q with
  | artifact a => cases hq
  | _ => rfl

/-- A site with a limit does not panic. -/
theorem limit_of_settled {β : Type} {t : Transport σ} {location : String} {reply : Reply β}
    {panic : Panic} (h : t.settled location reply = .error panic) : t.limit = none := by
  cases hl : t.limit with
  | none => rfl
  | some limit =>
    cases reply with
    | panics text =>
      simp only [Transport.settled, hl] at h
      cases h
    | answers delay answer =>
      simp only [Transport.settled, hl] at h
      split at h <;> cases h

theorem limit_of_panic {panic : Panic} (h : r.siteContent env q = .error panic) :
    r.transport.limit = none := by
  cases q with
  | artifacts m category =>
    cases hc : category.candidate? m.coordinate m.extension with
    | none =>
      simp only [siteContent, hc] at h
      cases h
    | some candidate =>
      rw [siteContent_of_candidate hc] at h
      cases hprobe : r.probed env (r.format.artifactLocation candidate) with
      | error panic' => exact limit_of_settled hprobe
      | ok answer =>
        rw [hprobe] at h
        cases h
  | _ => exact limit_of_settled h

theorem siteAnswer_eq_error_iff {panic : Panic} :
    r.siteAnswer env q = .error panic ↔ r.siteContent env q = .error panic := by
  rw [siteAnswer]
  cases r.siteContent env q <;> simp [Except.map]

end Repository

/-! ## Nothing is hidden -/

namespace Chain

/-- The lookup ends with a value, unless the site of an earlier repository panics, which a limit
prevents, and then it ends with that panic. -/
inductive Prevails (c : Chain σ) (q : Query α) (earlier : List (Repository σ)) (w : World σ) :
    Prop where
  | resolved {value : α} {w' : World σ} (h : c.lookup q w = .ok (.resolved value) w')
  | panicked {r : Repository σ} {panic : Panic} {w' : World σ} (hr : r ∈ earlier)
      (hl : r.transport.limit = none) (hp : r.siteContent w.env q = .error panic)
      (h : c.lookup q w = .error panic w')

variable {p : Policy} {q : Query α} {w : World σ} {repositories before after : List (Repository σ)}
  {r : Repository σ}

/-- What some site has prevails, whatever the cache holds and whatever access to it fails. -/
theorem prevails_of_site (hp : p.offline = false) (hd : q.declared? = none) (hq : q.IsParsed)
    {value : α} (hv : r.siteAnswer w.env q = .ok (.resolved value)) :
    (p.chain (before ++ r :: after)).Prevails q before w := by
  by_cases hoffer : ∃ r' ∈ before ++ r :: after, ∃ value, (r'.under p).Offers w.env q value
  · obtain ⟨_, _, _, _, _, _, _, hlookup⟩ := lookup_of_offer hd hoffer
    exact .resolved hlookup
  · obtain ⟨outcome, e', hout, hseen, _⟩ := lookup_of_sites hd hp
      (fun r hr value hv => hoffer ⟨r, hr, value, hv⟩)
      (fun r _ => Repository.keptOutcome_of_parsed hq)
    have hanswers : (before ++ r :: after).map (fun r => (r.name, r.siteAnswer w.env q)) =
        before.map (fun r => (r.name, r.siteAnswer w.env q)) ++ (r.name, r.siteAnswer w.env q) ::
          after.map fun r => (r.name, r.siteAnswer w.env q) := by
      rw [List.map_append, List.map_cons]
    rw [siteOutcome] at hout
    rcases settle_of_value hanswers hv _ with ⟨value', hs⟩ | ⟨answer, ha, panic, hpanic, hs⟩
    · rw [← hout, hs] at hseen
      obtain ⟨w', hlookup, _⟩ := Action.seen_eq_ok_iff.1 hseen
      exact .resolved hlookup
    · obtain ⟨r', hr', rfl⟩ := List.mem_map.1 ha
      rw [← hout, hs] at hseen
      obtain ⟨w', hlookup, _⟩ := Action.seen_eq_error_iff.1 hseen
      have hsite := Repository.siteAnswer_eq_error_iff.1 hpanic
      exact .panicked hr' (Repository.limit_of_panic hsite) hsite hlookup

end Chain

/-! ## What was fetched is there again -/

/-- What accesses to a store tell that succeed is true: content and age are those of the entry, and
after a write the entry holds what was written then. -/
structure Cache.Store.Truthful (s : Cache.Store σ) (v : Cache.View σ) : Prop where
  read_ok : ∀ {e key found}, v.occurs e → s.read e key = .ok found →
    found = (v.entry e key).map (·.1)
  age_ok : ∀ {e key age}, v.occurs e → s.age e key = .ok age →
    age = (v.entry e key).map fun found => ⟨v.now e - found.2⟩
  entry_write : ∀ {e key bytes}, v.occurs e → (s.write e key bytes).1 = .ok () →
    v.entry (s.write e key bytes).2 key = some (bytes, v.now e)

/-- Some time later an entry is still the same, and the accesses to it succeed. -/
structure Cache.Store.StillReads (s : Cache.Store σ) (v : Cache.View σ) (key : Cache.Key)
    (e later : σ) : Prop where
  occurs : v.occurs later
  entry_eq : v.entry later key = v.entry e key
  read_ok : ∃ found, s.read later key = .ok found
  age_ok : ∃ age, s.age later key = .ok age

namespace Repository

variable {r : Repository σ} {env env' : σ} {q : Query α} {value : α} {bytes : Bytes}

/-- If the content of a value could be written, and its entry can be read later on, then the local
half has the value as long as the entry is trusted. -/
def Restored (r : Repository σ) (q : Query α) (value : α) (bytes : Bytes) (env env' : σ) : Prop :=
  ∀ v : Cache.View σ, r.store.Truthful v → v.occurs env →
    (r.store.write env (r.key q) bytes).1 = .ok () →
    ∀ (p : Policy) (later : World σ), r.store.StillReads v (r.key q) env' later.env →
      (p.effectiveRules.trust q.kind).isFresh ⟨v.now later.env - v.now env⟩ = true →
      (r.under p).localHalf.answer q later = .ok (.resolved value) later

theorem Fetched.restored (h : r.Fetched q value env env' bytes) (hd : q.declared? = none) :
    r.Restored q value bytes env env' := by
  intro v hv he hwrite p later hlater hfresh
  have hentry : v.entry later.env (r.key q) = some (bytes, v.now env) := by
    rw [hlater.entry_eq, h.written, hv.entry_write he hwrite]
  obtain ⟨age, hage⟩ := hlater.age_ok
  obtain ⟨found, hfound⟩ := hlater.read_ok
  have hage' := hv.age_ok hlater.occurs hage
  have hfound' := hv.read_ok hlater.occurs hfound
  rw [hentry] at hage' hfound'
  have hoffer : (r.under p).Offers later.env q value := by
    refine ⟨⟨⟨v.now later.env - v.now env⟩, ?_, hfresh⟩, ?_⟩
    · rw [under_store, under_key, hage, hage']
      rfl
    · cases q with
      | artifact a => exact ⟨[], rfl, h.reads⟩
      | _ => exact ⟨bytes, hfound.trans (congrArg Except.ok hfound'), h.reads⟩
  rw [(r.under p).localHalf_answer, (localAnswer_eq_resolved_iff_offers hd).2 hoffer]

end Repository

namespace Chain

/-- Online, what some site has is found, whatever the cache holds and whatever access to it fails:
a listing or a descriptor that can be read, and companions where the probe is answered. Only a site
without a limit can end the lookup before that, by a panic. And a value that was fetched is what the
local half of its repository answers from then on, whatever its entry held before.

Which accesses fail is settled by the environment. The remote half makes those of the local half
once more, and as long as nothing has changed it gets the same results: a store of which an access
fails at first and succeeds within the same lookup is not among those of this statement. -/
theorem available_prevails {p : Policy} (hp : p.offline = false)
    (repositories : List (Repository σ)) (w : World σ) :
    (∀ before r after, repositories = before ++ r :: after →
      (∀ s bytes versions, r.fetched w.env (r.format.listingLocation s) = .ok (.ok (some bytes)) →
        r.format.readVersions bytes = .ok versions →
          (p.chain repositories).Prevails (.versions s) before w) ∧
      (∀ c bytes m, r.fetched w.env (r.format.descriptorLocation c) = .ok (.ok (some bytes)) →
        r.format.readMetadata c bytes = .ok m →
          (p.chain repositories).Prevails (.metadata c) before w) ∧
      ∀ m category candidate found, m.artifactsOf? category.configurationName = none →
        category.candidate? m.coordinate m.extension = some candidate →
        r.probed w.env (r.format.artifactLocation candidate) = .ok (.ok found) →
          (p.chain repositories).Prevails (.artifacts m category) before w) ∧
    ∀ {α : Type} (q : Query α) (value : α) (w' : World σ), q.declared? = none → q.IsParsed →
      (p.chain repositories).lookup q w = .ok (.resolved value) w' → w'.calls ≠ w.calls →
        ∃ winner ∈ repositories, ∃ bytes, w'.calls.getLast? = winner.call? q ∧
          winner.Fetched q value w.env w'.env bytes ∧
          winner.Restored q value bytes w.env w'.env := by
  constructor
  · rintro before r after rfl
    refine ⟨?_, ?_, ?_⟩
    · intro s bytes versions hbytes hread
      have hv : r.siteAnswer w.env (.versions s) = .ok (.resolved versions) :=
        Repository.siteAnswer_eq_resolved_iff.2 ⟨bytes, hbytes, hread⟩
      exact prevails_of_site hp rfl trivial hv
    · intro c bytes m hbytes hread
      have hv : r.siteAnswer w.env (.metadata c) = .ok (.resolved m) :=
        Repository.siteAnswer_eq_resolved_iff.2 ⟨bytes, hbytes, hread⟩
      exact prevails_of_site hp rfl trivial hv
    · intro m category candidate found hd hc hprobe
      have hbytes := r.siteContent_of_candidate hc w.env
      rw [hprobe] at hbytes
      have hv : r.siteAnswer w.env (.artifacts m category) = .ok (.resolved _) :=
        Repository.siteAnswer_eq_resolved_iff.2
          ⟨_, hbytes, Repository.decode_encode_candidate hc found⟩
      exact prevails_of_site hp (undeclared_of_candidate hc hd) trivial hv
  · intro α q value w' hd hq hlookup hcalls
    by_cases hoffer : ∃ r ∈ repositories, ∃ value, (r.under p).Offers w.env q value
    · obtain ⟨_, _, _, value', _, _, _, hfirst⟩ := lookup_of_offer hd hoffer
      rw [hfirst, EStateM.Result.ok.injEq] at hlookup
      exact absurd (congrArg World.calls hlookup.2.symm) hcalls
    · obtain ⟨outcome, e', _, hseen, hcase⟩ := lookup_of_sites hd hp
        (fun r hr value hv => hoffer ⟨r, hr, value, hv⟩)
        (fun r _ => Repository.keptOutcome_of_parsed hq)
      rw [Action.seen, hlookup] at hseen
      obtain ⟨rfl, rfl, hmade⟩ := by simpa only [Prod.mk.injEq] using hseen
      rcases hcase with ⟨value', hv, hfetched⟩ | ⟨hu, _⟩
      · obtain rfl := Outcome.resolved_injective (Except.ok.inj hv)
        obtain ⟨before, winner, after, bytes, rfl, _, hlast, hfetched⟩ := hfetched
        obtain ⟨call, hcall⟩ := Repository.call?_of_undeclared hd winner
        refine ⟨winner, by simp, bytes, ?_, hfetched, hfetched.restored hd⟩
        rw [hmade, List.getLast?_append, hlast, hcall]
        rfl
      · exact absurd rfl (hu value)

end Chain

/-! ## A damaged memory -/

namespace Environment

theorem eq_of_guarded {m : Cache.Memory} {access : Cache.Access} {key : Cache.Key}
    {result found : α} (h : m.guarded access key result = .ok found) : found = result := by
  rw [Cache.Memory.guarded] at h
  split at h
  · cases h
  · exact (Except.ok.inj h).symm

theorem map_entry (e : Environment) (key : Cache.Key) (f : Bytes × Nat → α) :
    (anyView.entry e key).map f =
      (e.memory.entries.lookup key).map fun entry => f (entry.content, entry.written) :=
  Option.map_map _ _ _

theorem memory_of_write {e : Environment} {key : Cache.Key} {bytes : Bytes}
    (h : e.memory.fault? .write key = none) :
    (memoryStore.write e key bytes).2.memory = e.memory.insert key bytes := by
  simp [memoryStore, Cache.Store.within, Cache.Memory.store, memoryLens, h]

/-- Accesses to the memory of an environment that succeed tell the truth, whatever others are made
to fail. -/
theorem memoryStore_truthful : memoryStore.Truthful anyView where
  read_ok {e key _} _ h := (eq_of_guarded h).trans (map_entry e key Prod.fst).symm
  age_ok {e key _} _ h :=
    (eq_of_guarded h).trans (map_entry e key fun found => Duration.mk (e.memory.now - found.2)).symm
  entry_write {e key bytes} _ h := by
    cases hfault : e.memory.fault? .write key with
    | some text =>
      simp [memoryStore, Cache.Store.within, Cache.Memory.store, memoryLens, hfault] at h
    | none =>
      change ((memoryStore.write e key bytes).2.memory.entries.lookup key).map _ = _
      rw [memory_of_write hfault, Cache.Memory.lookup_insert, if_pos rfl]
      rfl

/-- The listing of a module of one version. -/
def libListing : Bytes := Text.encode "versions = [\"1.0\"]\n"

/-- A world in which the first of two repositories has an entry whose age cannot be told and a site
that cannot be reached, and the second one a corrupt record and a site that has everything. -/
def damagedWorld : World Environment where
  env :=
    { memory :=
        { entries := [(repositoryB.key sourcesQuery, ⟨[0xFF], 0⟩)]
          faults := [((.age, some (repositoryA.key sourcesQuery)), "disk")] }
      sites := [{ unreachable := true },
        { resources := [("g/lib/1.0/lib-1.0-sources.jar", [1]),
          ("g/lib/versions.toml", libListing)] }] }

theorem damaged_fault? (access : Cache.Access) :
    damagedWorld.env.memory.fault? access (repositoryB.key sourcesQuery) = none := by
  have hne : ((access, some (repositoryB.key sourcesQuery)) ==
      (Cache.Access.age, some (repositoryA.key sourcesQuery))) = false :=
    beq_false_of_ne fun h => sourcesKeys_ne (Option.some.inj (Prod.mk.inj h).2)
  have hnone : ((access, none) ==
      (Cache.Access.age, some (repositoryA.key sourcesQuery))) = false :=
    beq_false_of_ne fun h => by cases (Prod.mk.inj h).2
  simp [Cache.Memory.fault?, damagedWorld, List.lookup_cons, hne, hnone]

theorem damaged_unusable {r : Repository Environment} (hr : r ∈ [repositoryA, repositoryB])
    (value : List Artifact) : ¬ (r.under {}).Offers damagedWorld.env sourcesQuery value := by
  rintro ⟨⟨age, hage, _⟩, bytes, hcontent, hread⟩
  rcases List.mem_cons.1 hr with rfl | hr
  · have hfault : damagedWorld.env.memory.fault? .age (repositoryA.key sourcesQuery) =
        some "disk" := by
      simp [Cache.Memory.fault?, damagedWorld]
    have hfailed : memoryStore.age damagedWorld.env (repositoryA.key sourcesQuery) =
        .error (.io (.other "disk")) := by
      rw [memoryStore_age, Cache.Memory.guarded, hfault]
    cases hfailed.symm.trans hage
  · obtain rfl := List.mem_singleton.1 hr
    have hcorrupt : memoryStore.read damagedWorld.env (repositoryB.key sourcesQuery) =
        .ok (some [0xFF]) := by
      rw [memoryStore_read, Cache.Memory.guarded, damaged_fault?]
      simp [damagedWorld]
    obtain rfl := Option.some.inj (Except.ok.inj (hcorrupt.symm.trans hcontent))
    cases hread

theorem damaged_calls {w' : World Environment} {o : Outcome (List Artifact)}
    (h : (({} : Policy).chain [repositoryA, repositoryB]).lookup sourcesQuery damagedWorld =
      .ok o w') : w'.calls ≠ damagedWorld.calls := by
  obtain ⟨call, hcalls⟩ := Chain.lookup_calls (p := {}) rfl rfl (by simp)
    fun r hr => damaged_unusable hr
  have hfinish : ((({} : Policy).chain [repositoryA, repositoryB]).lookup sourcesQuery).finish
      damagedWorld = (.ok o, w') := by
    rw [Action.finish, h]
  rw [hfinish] at hcalls
  intro hnil
  rw [hnil] at hcalls
  exact absurd (List.prefix_nil.1 hcalls) (by simp)

/-- With a damaged memory and a site that cannot be reached, the listing and the sources are found
all the same; and the corrupt record is replaced by what was found. -/
theorem damaged_record_restored :
    let c := ({} : Policy).chain [repositoryA, repositoryB]
    (∃ versions w', c.lookup (.versions ⟨"g", "lib", .latest⟩) damagedWorld =
      .ok (.resolved versions) w') ∧
    ∃ w', c.lookup sourcesQuery damagedWorld = .ok (.resolved [guessedSources]) w' ∧
      let later : World Environment := { w' with env := w'.env.after 1000 }
      (repositoryB.under {}).localHalf.answer sourcesQuery later =
        .ok (.resolved [guessedSources]) later := by
  intro c
  obtain ⟨hfound, hrestored⟩ :=
    Chain.available_prevails (p := {}) rfl [repositoryA, repositoryB] damagedWorld
  obtain ⟨hlisting, _, hcompanion⟩ := hfound [repositoryA] repositoryB [] rfl
  have hread : (Format.toml {}).readVersions libListing = .ok [⟨"1.0"⟩] := by cbv
  have hlisted : repositoryB.fetched damagedWorld.env
      (repositoryB.format.listingLocation ⟨"g", "lib", .latest⟩) = .ok (.ok (some libListing)) := by
    have hlocation : repositoryB.format.listingLocation ⟨"g", "lib", .latest⟩ =
      "g/lib/versions.toml" := by cbv
    rw [hlocation]
    rfl
  have hprobed : repositoryB.probed damagedWorld.env
      (repositoryB.format.artifactLocation guessedSources) = .ok (.ok true) := by
    rw [show repositoryB.format = Format.toml {} from rfl, guessedSources_location]
    rfl
  have hc : Category.sources.candidate? plainMetadata.coordinate plainMetadata.extension =
    some guessedSources := rfl
  constructor
  · cases hlisting _ _ _ hlisted hread with
    | resolved h => exact ⟨_, _, h⟩
    | panicked hr _ hp =>
      obtain rfl := List.mem_singleton.1 hr
      cases hp
  · cases hcompanion plainMetadata .sources guessedSources true rfl hc hprobed with
    | panicked hr _ hp =>
      obtain rfl := List.mem_singleton.1 hr
      cases hp
    | @resolved value w' h =>
      obtain ⟨winner, hmem, bytes, _, hfetched, hrestored⟩ :=
        hrestored sourcesQuery value w' rfl trivial h (damaged_calls h)
      obtain rfl : winner = repositoryB := by
        rcases List.mem_cons.1 hmem with rfl | hmem
        · cases hfetched.content
        · exact List.mem_singleton.1 hmem
      have hbytes := repositoryB.siteContent_of_candidate hc damagedWorld.env
      rw [hprobed] at hbytes
      obtain rfl := Option.some.inj
        (Except.ok.inj (Except.ok.inj (hbytes.symm.trans hfetched.content)))
      obtain rfl := Except.ok.inj
        ((Repository.decode_encode_candidate hc true).symm.trans hfetched.reads)
      have hmemory : w'.env.memory = damagedWorld.env.memory.insert
          (repositoryB.key sourcesQuery) (ProbeRecord.encode [guessedSources]) := by
        rw [hfetched.written]
        exact memory_of_write (damaged_fault? .write)
      have hguarded : ∀ {β : Type} (access : Cache.Access) (result : β), ∃ found,
          (w'.env.after 1000).memory.guarded access (repositoryB.key sourcesQuery) result =
            .ok found := by
        intro β access result
        have hfault : (w'.env.after 1000).memory.fault? access (repositoryB.key sourcesQuery) =
            damagedWorld.env.memory.fault? access (repositoryB.key sourcesQuery) := by
          simp only [after, hmemory]
          rfl
        exact ⟨result, by rw [Cache.Memory.guarded, hfault, damaged_fault?]⟩
      refine ⟨w', h, hrestored anyView memoryStore_truthful trivial ?_ {} _ ?_ ?_⟩
      · change (memoryStore.write _ _ _).1 = _
        simp [memoryStore, Cache.Store.within, Cache.Memory.store, memoryLens, damaged_fault?]
      · exact ⟨trivial, rfl, hguarded .read _, hguarded .age _⟩
      · have hnow : w'.env.memory.now = 0 := by rw [hmemory]; rfl
        have hlater : anyView.now (w'.env.after 1000) = w'.env.memory.now + 1000 := rfl
        rw [hlater, hnow]
        decide

end Environment
end ArtifactResolver
