import ArtifactResolver.Proofs.Precedence
import ArtifactResolver.Proofs.Provenance

/-!
# Which companion a record stands for

The record of a probe is found by the module version and the category, and the extension of the file
that was probed for has no part in that. So what is answered from a record is what the probe for
some metadata of the module version has found, and where that named another extension, it is not the
companion that was asked for now.
-/

namespace ArtifactResolver

variable {σ α : Type}

/-- What every half keeps, and what holds of the value of every half, holds of a chain. -/
theorem Chain.ask_induction {q : Query α} {I : World σ → Prop} {P : α → Prop}
    {halves : List (String × Half σ)}
    (h : ∀ half ∈ halves, ∀ w, I w → I ((half.2.answer q).finish w).2 ∧
      ∀ value, ((half.2.answer q).finish w).1 = .ok (.resolved value) → P value)
    (failures : List (String × Failure)) {w : World σ} (hw : I w) :
    I ((ask q.operation q.subject (·.answer q) failures halves).finish w).2 ∧
      ∀ value, ((ask q.operation q.subject (·.answer q) failures halves).finish w).1 =
        .ok (.resolved value) → P value := by
  induction halves generalizing w failures with
  | nil =>
    obtain ⟨o, ha, _, hu⟩ := ask_end q failures w
    rw [Action.finish, ha]
    refine ⟨hw, ?_⟩
    rintro value hvalue
    obtain rfl := Except.ok.inj hvalue
    cases hu
  | cons half rest ih =>
    obtain ⟨hkept, hvalue⟩ := h half List.mem_cons_self w hw
    have hrest := fun failures => ih (fun half hh => h half (List.mem_cons_of_mem _ hh)) failures
      hkept
    rw [Action.finish] at hkept hvalue
    rw [Action.finish, ask_cons]
    cases ha : half.2.answer q w with
    | error panic w' =>
      rw [ha] at hkept
      exact ⟨hkept, fun value hv => by cases hv⟩
    | ok o w' =>
      simp only [Action.finish, ha] at hkept hvalue hrest
      rcases o with ⟨_ | value | failure | _⟩
      · exact hrest failures
      · exact ⟨hkept, fun value' hv => hvalue value' hv⟩
      · exact hrest (failures ++ [(half.1, failure)])
      · exact hrest failures

namespace Repository

/-- A lookup of companions in one repository, under some policy: by one of its halves, or by the
chain that has only this repository. -/
inductive Asking (r : Repository σ) (p : Policy) (m : Metadata) (category : Category) :
    Action σ (Outcome (List Artifact)) → Prop where
  | half {name : String} {half : Half σ} (mem : (name, half) ∈ (p.chain [r]).halves) :
      Asking r p m category (half.artifacts m category)
  | chain : Asking r p m category ((p.chain [r]).artifacts m category)

/-- A sequence of such lookups from an empty cache on, each with metadata and a policy of its own.
Before every lookup anything may happen outside, but no entry comes from there. -/
inductive Asked (r : Repository σ) (v : Cache.View σ) :
    List (Metadata × Category) → World σ → Prop where
  | start {w : World σ} (empty : v.Empty w.env) : Asked r v [] w
  | outside {asked : List (Metadata × Category)} {w : World σ} {e : σ} (before : Asked r v asked w)
      (occurs : v.occurs e)
      (known : ∀ key found, v.entry e key = some found → v.entry w.env key = some found) :
      Asked r v asked { w with env := e }
  | lookup {asked : List (Metadata × Category)} {w w' : World σ} {p : Policy} {m : Metadata}
      {category : Category} {a : Action σ (Outcome (List Artifact))}
      {result : Except Panic (Outcome (List Artifact))} (before : Asked r v asked w)
      (asking : r.Asking p m category a) (ended : a.finish w = (result, w')) :
      Asked r v ((m, category) :: asked) w'

/-- The set is what a probe has found for some metadata of the module version, with which was asked
then. -/
def StandsFor (r : Repository σ) (asked : List (Metadata × Category)) (c : Coordinate)
    (category : Category) (set : List Artifact) : Prop :=
  ∃ m candidate found e, (m, category) ∈ asked ∧ m.coordinate = c ∧
    category.candidate? c m.extension = some candidate ∧
    r.probed e (r.format.artifactLocation candidate) = .ok (.ok found) ∧
    set = if found then [candidate] else []

/-- Every entry is the record of such a set. -/
structure Recorded (r : Repository σ) (v : Cache.View σ) (asked : List (Metadata × Category))
    (e : σ) : Prop where
  occurs : v.occurs e
  stands : ∀ {key found}, v.entry e key = some found → ∃ c category set,
    key = .artifactSet r.name c category ∧ found.1 = ProbeRecord.encode set ∧
      r.StandsFor asked c category set

variable {r : Repository σ} {v : Cache.View σ} {asked asked' : List (Metadata × Category)}
  {m : Metadata} {category : Category} {set : List Artifact} {p : Policy}

theorem StandsFor.mono {c : Coordinate} (h : r.StandsFor asked c category set)
    (hsub : asked ⊆ asked') : r.StandsFor asked' c category set := by
  obtain ⟨m, candidate, found, e, hmem, hrest⟩ := h
  exact ⟨m, candidate, found, e, hsub hmem, hrest⟩

theorem Recorded.mono {e : σ} (h : r.Recorded v asked e) (hsub : asked ⊆ asked') :
    r.Recorded v asked' e := by
  refine ⟨h.occurs, fun hentry => ?_⟩
  obtain ⟨c, category, set, hkey, hbytes, hstands⟩ := h.stands hentry
  exact ⟨c, category, set, hkey, hbytes, hstands.mono hsub⟩

/-- The set is read back from its record. -/
theorem StandsFor.decode {c : Coordinate} (h : r.StandsFor asked c category set) :
    ProbeRecord.decode c (ProbeRecord.encode set) = .ok set := by
  obtain ⟨m, candidate, found, e, _, _, hc, _, rfl⟩ := h
  exact decode_encode_candidate hc found

/-- What is read of a trusted entry stands for what was found then, whatever the policy. -/
theorem Recorded.standsFor_of_trusted {e : σ} (h : r.Recorded v asked e) (hs : r.store.Honest v)
    {bytes : Bytes} (ht : (r.under p).trusted e (.artifacts m category) = .ok (some bytes))
    (hread : (r.under p).readBack (.artifacts m category) bytes = .ok set) :
    r.StandsFor asked m.coordinate category set := by
  obtain ⟨found, hentry, hsame⟩ := entry_of_trusted (r := r.under p) hs h.occurs ht
  obtain ⟨c, category', set', hkey, hbytes, hstands⟩ := h.stands hentry
  have hrequest : Cache.Key.ofRequest r.name (.artifactSet m.coordinate category) =
      .ofRequest r.name (.artifactSet c category') := hkey
  obtain ⟨_, hrequest⟩ := Cache.Key.ofRequest_injective hrequest
  obtain ⟨rfl, rfl⟩ := Cache.Request.artifactSet.inj hrequest
  have hdecoded : ProbeRecord.decode m.coordinate found.1 = .ok set := hsame.symm.trans hread
  rw [hbytes, hstands.decode] at hdecoded
  obtain rfl := Except.ok.inj hdecoded
  exact hstands

theorem trusted_of_usable {e : σ} {q : Query α} {value : α} (h : r.usable? e q = some value) :
    ∃ bytes, r.trusted e q = .ok (some bytes) ∧ r.readBack q bytes = .ok value := by
  rw [usable?] at h
  split at h
  · next bytes ht => exact ⟨bytes, ht, toOption_eq_some_iff.1 h⟩
  · cases h

/-- What the site is asked for is the candidate of the metadata, and the content of the entry is the
record of what was found. -/
theorem standsFor_of_siteContent {e : σ} {bytes : Bytes} (hasked : (m, category) ∈ asked)
    (hb : (r.under p).siteContent e (.artifacts m category) = .ok (.ok (some bytes))) :
    ∃ set, bytes = ProbeRecord.encode set ∧ r.StandsFor asked m.coordinate category set := by
  rw [under_siteContent] at hb
  cases hc : category.candidate? m.coordinate m.extension with
  | none =>
    simp only [siteContent, hc] at hb
    cases hb
  | some candidate =>
    rw [siteContent_of_candidate hc] at hb
    rcases hprobe : r.probed e (r.format.artifactLocation candidate) with panic | error | found <;>
      rw [hprobe] at hb
    · cases hb
    · cases hb
    · obtain rfl := Option.some.inj (Except.ok.inj (Except.ok.inj hb))
      exact ⟨_, rfl, m, candidate, found, e, hasked, rfl, hc, hprobe, rfl⟩

/-- The local half only reads. -/
theorem Recorded.localHalf {w : World σ} (h : r.Recorded v asked w.env) (hs : r.store.Honest v) :
    r.Recorded v asked (((r.under p).localHalf.answer (.artifacts m category)).finish w).2.env ∧
      ∀ set, (((r.under p).localHalf.answer (.artifacts m category)).finish w).1 =
        .ok (.resolved set) → (Query.artifacts m category).declared? = none →
          r.StandsFor asked m.coordinate category set := by
  rw [Action.finish, (r.under p).localHalf_answer]
  refine ⟨h, fun set hset hd => ?_⟩
  have hset := Except.ok.inj hset
  rw [localAnswer_of_undeclared hd, answerOf_eq_resolved_iff] at hset
  obtain ⟨bytes, ht, hread⟩ := hset
  exact h.standsFor_of_trusted hs ht hread

/-- The remote half reads, or writes the record of what it has found. -/
theorem Recorded.remoteHalf {w : World σ} (h : r.Recorded v asked w.env) (hs : r.store.Honest v)
    (hasked : (m, category) ∈ asked) :
    r.Recorded v asked (((r.under p).remoteHalf.answer (.artifacts m category)).finish w).2.env ∧
      ∀ set, (((r.under p).remoteHalf.answer (.artifacts m category)).finish w).1 =
        .ok (.resolved set) → r.StandsFor asked m.coordinate category set := by
  have hcourse := (r.under p).remoteHalf_course (.artifacts m category) w
  rw [Action.seen_eq_finish] at hcourse
  generalize ((r.under p).remoteHalf.answer (.artifacts m category)).finish w = ended at hcourse
  obtain ⟨result, w'⟩ := ended
  dsimp only at hcourse ⊢
  generalize w'.env = env', w'.calls = calls' at hcourse
  cases hcourse with
  | idle => exact ⟨h, fun set hset => by cases hset⟩
  | reused _ hv =>
    refine ⟨h, fun set hset => ?_⟩
    obtain rfl := Outcome.resolved_injective (Except.ok.inj hset)
    obtain ⟨bytes, ht, hread⟩ := trusted_of_usable hv
    exact h.standsFor_of_trusted hs ht hread
  | answered _ _ hu => exact ⟨h, fun set hset => absurd hset (hu set)⟩
  | @kept _ bytes value _ _ hb hv =>
    obtain ⟨set, rfl, hstands⟩ := standsFor_of_siteContent hasked hb
    refine ⟨⟨hs.occurs_write h.occurs, fun hentry => ?_⟩, fun set' hset => ?_⟩
    · rcases hs.entry_write h.occurs hentry with hold | ⟨rfl, hbytes⟩
      · exact h.stands hold
      · exact ⟨m.coordinate, category, set, rfl, hbytes, hstands⟩
    · obtain rfl := resolved_of_kept (Except.ok.inj hset)
      have hread : ProbeRecord.decode m.coordinate (ProbeRecord.encode set) = .ok value := hv
      rw [hstands.decode] at hread
      obtain rfl := Except.ok.inj hread
      exact hstands

/-- Every half keeps every entry recorded. A set that the metadata does not declare stands for what
a probe has found, now or before. -/
theorem Recorded.half {w : World σ} (h : r.Recorded v asked w.env) (hs : r.store.Honest v)
    (hasked : (m, category) ∈ asked) {name : String} {half : Half σ}
    (hmem : (name, half) ∈ (p.chain [r]).halves) :
    r.Recorded v asked ((half.answer (.artifacts m category)).finish w).2.env ∧
      ∀ set, ((half.answer (.artifacts m category)).finish w).1 = .ok (.resolved set) →
        (Query.artifacts m category).declared? = none →
          r.StandsFor asked m.coordinate category set := by
  cases hp : p.offline with
  | true =>
    rw [Chain.halves_chain_offline hp] at hmem
    simp only [List.map_cons, List.map_nil, List.cons_append, List.nil_append, List.mem_cons,
      Prod.mk.injEq, List.not_mem_nil, or_false] at hmem
    rcases hmem with ⟨_, rfl⟩ | ⟨_, rfl⟩
    · exact h.localHalf hs
    · rw [Action.finish, offlineHalf_answer]
      exact ⟨h, fun set hset => by cases hset⟩
  | false =>
    rw [Chain.halves_chain_online hp] at hmem
    simp only [List.map_cons, List.map_nil, List.cons_append, List.nil_append, List.mem_cons,
      Prod.mk.injEq, List.not_mem_nil, or_false] at hmem
    rcases hmem with ⟨_, rfl⟩ | ⟨_, rfl⟩
    · exact h.localHalf hs
    · obtain ⟨hkept, hstands⟩ := h.remoteHalf (p := p) hs hasked
      exact ⟨hkept, fun set hset _ => hstands set hset⟩

theorem Recorded.asking {w w' : World σ} {a : Action σ (Outcome (List Artifact))}
    {result : Except Panic (Outcome (List Artifact))} (h : r.Recorded v asked w.env)
    (hs : r.store.Honest v) (ha : r.Asking p m category a) (hended : a.finish w = (result, w')) :
    r.Recorded v ((m, category) :: asked) w'.env ∧
      ∀ set, result = .ok (.resolved set) → (Query.artifacts m category).declared? = none →
        r.StandsFor ((m, category) :: asked) m.coordinate category set := by
  have h := h.mono (List.subset_cons_self (m, category) asked)
  cases ha with
  | half hmem =>
    have hhalf := h.half hs List.mem_cons_self hmem
    simp only [Half.answer, hended] at hhalf
    exact hhalf
  | chain =>
    have hask := Chain.ask_induction (q := .artifacts m category)
      (I := fun w => r.Recorded v ((m, category) :: asked) w.env)
      (fun half (hmem : half ∈ (p.chain [r]).halves) w hw =>
        Recorded.half (w := w) hw hs List.mem_cons_self hmem) [] h
    rw [← Chain.lookup_eq_ask] at hask
    simp only [Chain.lookup, hended] at hask
    exact ⟨hask.1, fun set hset hd => hask.2 set hset hd⟩

/-- Every lookup of a sequence keeps every entry recorded. -/
theorem Asked.recorded {w : World σ} (h : r.Asked v asked w) (hs : r.store.Honest v) :
    r.Recorded v asked w.env := by
  induction h with
  | start empty =>
    refine ⟨empty.occurs, fun hentry => ?_⟩
    rw [empty.entry_eq] at hentry
    cases hentry
  | outside _ occurs known ih => exact ⟨occurs, fun hentry => ih.stands (known _ _ hentry)⟩
  | lookup _ asking ended ih => exact (ih.asking hs asking ended).1

/-- In any sequence of lookups, a set of companions that the metadata does not declare is what a
probe has found for some metadata of the module version, the given one or one that was asked with
before. As long as all of these name one extension, it is empty or holds the candidate. -/
theorem companions_of_probes (hs : r.store.Honest v) {w w' : World σ} (h : r.Asked v asked w)
    {a : Action σ (Outcome (List Artifact))} (ha : r.Asking p m category a)
    (hd : (Query.artifacts m category).declared? = none)
    (hended : a.finish w = (.ok (.resolved set), w')) :
    r.StandsFor ((m, category) :: asked) m.coordinate category set ∧
      ((∀ m', (m', category) ∈ asked → m'.coordinate = m.coordinate → m'.extension = m.extension) →
        ∃ candidate, category.candidate? m.coordinate m.extension = some candidate ∧
          (set = [] ∨ set = [candidate])) := by
  have hstands := ((h.recorded hs).asking hs ha hended).2 set rfl hd
  refine ⟨hstands, fun hsame => ?_⟩
  obtain ⟨m', candidate, found, e, hmem, hcoordinate, hc, _, rfl⟩ := hstands
  have hextension : m'.extension = m.extension := by
    rcases List.mem_cons.1 hmem with hnow | hbefore
    · rw [(Prod.mk.inj hnow).1]
    · exact hsame m' hbefore hcoordinate
  rw [hextension] at hc
  refine ⟨candidate, hc, ?_⟩
  cases found with
  | true => exact Or.inr rfl
  | false => exact Or.inl rfl

end Repository

/-! ## Metadata that is published again -/

namespace Environment

/-- The metadata of the module version after it was published with another extension. -/
def packedMetadata : Metadata := { plainMetadata with extension := "aar" }

/-- The sources that are guessed then. -/
def packedSources : Artifact := { guessedSources with extension := "aar" }

/-- A world in which the sources are there with both extensions. -/
def bothWorld : World Environment where
  env := { sites := [{ resources := [("g/lib/1.0/lib-1.0-sources.jar", [1]),
    ("g/lib/1.0/lib-1.0-sources.aar", [2])] }] }

theorem probed_bothWorld : repositoryA.probed bothWorld.env
    (repositoryA.format.artifactLocation guessedSources) = .ok (.ok true) := by
  rw [show repositoryA.format = Format.toml {} from rfl, guessedSources_location]
  rfl

/-- The first lookup finds the sources and keeps the record of that. -/
theorem first_lookup : ∃ w,
    ((({} : Policy).chain [repositoryA]).artifacts plainMetadata .sources).finish bothWorld =
      (.ok (.resolved [guessedSources]), w) ∧
    repositoryA.Fetched sourcesQuery [guessedSources] bothWorld.env w.env
      (ProbeRecord.encode [guessedSources]) := by
  have hc : Category.sources.candidate? plainMetadata.coordinate plainMetadata.extension =
    some guessedSources := rfl
  have hsite := repositoryA.siteContent_of_candidate hc bothWorld.env
  rw [probed_bothWorld] at hsite
  have hanswer : repositoryA.siteAnswer bothWorld.env sourcesQuery =
      .ok (.resolved [guessedSources]) :=
    Repository.siteAnswer_eq_resolved_iff.2
      ⟨_, hsite, Repository.decode_encode_candidate hc true⟩
  have hn : ∀ r ∈ [repositoryA], ∀ value,
      ¬ (r.under {}).Offers bothWorld.env sourcesQuery value := by
    intro r hr value
    obtain rfl := List.mem_singleton.1 hr
    exact Repository.not_offers_of_no_record (r := repositoryA.under {}) (w := bothWorld) rfl value
  obtain ⟨outcome, e', hout, hseen, hcase⟩ :=
    Chain.lookup_of_sites (p := {}) (q := sourcesQuery) rfl rfl hn fun _ _ _ _ => rfl
  rw [Chain.siteOutcome, List.map_cons, hanswer, Chain.settle_cons_resolved] at hout
  subst hout
  obtain ⟨w, hlookup, rfl, _⟩ := Action.seen_eq_ok_iff.1 hseen
  have hlookup : (({} : Policy).chain [repositoryA]).artifacts plainMetadata .sources bothWorld =
    .ok (.resolved [guessedSources]) w := hlookup
  refine ⟨w, by rw [Action.finish, hlookup], ?_⟩
  rcases hcase with ⟨value, hvalue, before, winner, after, bytes, hsplit, _, _, hfetched⟩ | ⟨hu, _⟩
  · obtain rfl : winner = repositoryA := List.mem_singleton.1 (by simp [hsplit])
    obtain rfl := Outcome.resolved_injective (Except.ok.inj hvalue)
    have hbytes := hsite.symm.trans hfetched.content
    obtain rfl := Option.some.inj (Except.ok.inj (Except.ok.inj hbytes))
    exact hfetched
  · exact absurd rfl (hu _)

theorem bothWorld_empty : anyView.Empty bothWorld.env := ⟨trivial, fun _ => rfl⟩

theorem occurs_bothWorld : (view bothWorld.env.sites).occurs bothWorld.env := ⟨rfl, rfl⟩

theorem occurs_of_first {w : World Environment} (hfetched : repositoryA.Fetched sourcesQuery
    [guessedSources] bothWorld.env w.env (ProbeRecord.encode [guessedSources])) :
    (view bothWorld.env.sites).occurs w.env := by
  have hs : repositoryA.store.Shows (view bothWorld.env.sites) := memoryStore_shows _
  exact hfetched.written ▸ hs.occurs_write occurs_bothWorld _ _

/-- After the first lookup its record answers for the sources of the module version, whatever
extension the metadata names. -/
theorem lookup_of_record {w : World Environment} (hfetched : repositoryA.Fetched sourcesQuery
    [guessedSources] bothWorld.env w.env (ProbeRecord.encode [guessedSources]))
    (extension : String) :
    (({} : Policy).chain [repositoryA]).artifacts { plainMetadata with extension := extension }
      .sources w = .ok (.resolved [guessedSources]) w := by
  have hs : repositoryA.store.Shows (view bothWorld.env.sites) := memoryStore_shows _
  have hentry := hs.entry_write occurs_bothWorld (repositoryA.key sourcesQuery)
    (ProbeRecord.encode [guessedSources]) (repositoryA.key sourcesQuery)
  rw [if_pos rfl, ← hfetched.written] at hentry
  have hnow : (view bothWorld.env.sites).now w.env = 0 := by
    rw [hfetched.written]
    rfl
  have hfresh : (view bothWorld.env.sites).fresh w.env .standard (repositoryA.key sourcesQuery) =
      some (ProbeRecord.encode [guessedSources]) := by
    rw [Cache.View.fresh, hentry, hnow]
    rfl
  have hoffer : (repositoryA.under {}).Offers w.env
      (.artifacts { plainMetadata with extension := extension } .sources) [guessedSources] :=
    (Repository.offers_iff_of_shows (r := repositoryA.under {}) hs (occurs_of_first hfetched)).2
      ⟨_, hfresh, hfetched.reads⟩
  obtain ⟨before, first, after, value, hsplit, _, hfirst, hanswer⟩ :=
    Chain.lookup_of_offer (p := {}) rfl ⟨repositoryA, List.mem_singleton_self _, _, hoffer⟩
  obtain rfl : first = repositoryA := List.mem_singleton.1 (hsplit ▸ by simp)
  obtain rfl := hoffer.unique hfirst
  exact hanswer

/-- The set of the first lookup is what its own probe has found. The second lookup is answered from
the record of that, without a call, and as both name the same extension the set is the one of the
candidate. -/
theorem recorded_set_probed : ∃ w,
    ((({} : Policy).chain [repositoryA]).artifacts plainMetadata .sources).finish bothWorld =
      (.ok (.resolved [guessedSources]), w) ∧
    repositoryA.StandsFor [(plainMetadata, .sources)] plainMetadata.coordinate .sources
      [guessedSources] ∧
    ((({} : Policy).chain [repositoryA]).artifacts plainMetadata .sources).finish w =
      (.ok (.resolved [guessedSources]), w) ∧
    ∃ candidate,
      Category.sources.candidate? plainMetadata.coordinate plainMetadata.extension =
        some candidate ∧
      ([guessedSources] = [] ∨ [guessedSources] = [candidate]) := by
  obtain ⟨w, hended, hfetched⟩ := first_lookup
  have hagain : ((({} : Policy).chain [repositoryA]).artifacts plainMetadata .sources).finish w =
      (.ok (.resolved [guessedSources]), w) := by
    rw [Action.finish, lookup_of_record hfetched plainMetadata.extension]
  have hfirst := Repository.companions_of_probes memoryStore_honest (.start bothWorld_empty) .chain
    rfl hended
  have hsecond := Repository.companions_of_probes memoryStore_honest
    (.lookup (.start bothWorld_empty) .chain hended) .chain rfl hagain
  refine ⟨w, hended, hfirst.1, hagain, hsecond.2 fun m hm _ => ?_⟩
  obtain ⟨rfl, -⟩ := Prod.mk.inj (List.mem_singleton.1 hm)
  rfl

/-- After the module version was published again with another extension, the record of the first
lookup still answers for its sources: with a file that the metadata does not ask for. -/
theorem record_of_other_extension : ∃ w w',
    repositoryA.Asked anyView [(plainMetadata, .sources)] w ∧
    (Query.artifacts packedMetadata .sources).declared? = none ∧
    Category.sources.candidate? packedMetadata.coordinate packedMetadata.extension =
      some packedSources ∧
    repositoryA.probed w.env (repositoryA.format.artifactLocation packedSources) = .ok (.ok true) ∧
    (({} : Policy).chain [repositoryA]).artifacts packedMetadata .sources w =
      .ok (.resolved [guessedSources]) w' ∧
    guessedSources ≠ packedSources := by
  obtain ⟨w, hended, hfetched⟩ := first_lookup
  have hlocation : (Format.toml {}).artifactLocation packedSources =
      "g/lib/1.0/lib-1.0-sources.aar" := by decide +kernel
  have hprobed : repositoryA.probed w.env (repositoryA.format.artifactLocation packedSources) =
      .ok (.ok true) := by
    rw [show repositoryA.format = Format.toml {} from rfl, hlocation]
    simp only [Repository.probed, repositoryA, siteTransport, Site.transport,
      (occurs_of_first hfetched).2]
    rfl
  exact ⟨w, w, .lookup (.start bothWorld_empty) .chain hended, rfl, rfl, hprobed,
    lookup_of_record hfetched "aar", by decide⟩

end Environment
end ArtifactResolver
