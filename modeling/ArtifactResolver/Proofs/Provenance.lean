import Mathlib.Data.List.Nodup
import ArtifactResolver.Proofs.Offline
import ArtifactResolver.Proofs.Transparency

/-!
# Where entries come from

Repositories share a cache whose accesses may fail, and their sites may change from call to call.
Whatever is looked up in whatever order, every entry holds what the site of its own repository
returned to a call for its own request, and can be read. The invariant ties the cache to the calls
of the run: a half can only write what its call has just returned, under the key of its request.
-/

namespace ArtifactResolver

variable {σ α β : Type}

/-- Nothing comes into a store but by being written: what is read is in it, an age is that of an
entry, and a write, whether it succeeds or not, leaves every entry as it was or with what was
written under its key. -/
structure Cache.Store.Honest (s : Cache.Store σ) (v : Cache.View σ) : Prop where
  read_some : ∀ {e key bytes}, v.occurs e → s.read e key = .ok (some bytes) →
    ∃ written, v.entry e key = some (bytes, written)
  age_some : ∀ {e key age}, v.occurs e → s.age e key = .ok (some age) →
    ∃ found, v.entry e key = some found
  occurs_write : ∀ {e key bytes}, v.occurs e → v.occurs (s.write e key bytes).2
  entry_write : ∀ {e key bytes other found}, v.occurs e →
    v.entry (s.write e key bytes).2 other = some found →
      v.entry e other = some found ∨ other = key ∧ found.1 = bytes

namespace Cache.Store.Honest

variable {s : Cache.Store σ} {v : Cache.View σ} {e : σ} {trust : Trust} {key : Cache.Key}

theorem entry_of_readFresh (hs : s.Honest v) (he : v.occurs e) {bytes : Bytes}
    (h : s.readFresh e trust key = .ok (some bytes)) :
    ∃ written, v.entry e key = some (bytes, written) := by
  rw [readFresh] at h
  rcases hage : s.age e key with err | _ | age <;> rw [hage] at h
  · cases h
  · cases h
  · change (if trust.isFresh age then s.read e key else Except.ok none) = _ at h
    split at h
    · exact hs.read_some he h
    · cases h

theorem entry_of_hasFresh (hs : s.Honest v) (he : v.occurs e)
    (h : s.hasFresh e trust key = .ok true) : ∃ found, v.entry e key = some found := by
  rw [hasFresh] at h
  rcases hage : s.age e key with err | _ | age <;> rw [hage] at h
  · cases h
  · cases h
  · exact hs.age_some he hage

end Cache.Store.Honest

/-! ## What was called -/

/-- The calls that a half makes for a lookup, with the environment in which it makes them. -/
def Half.callsFor (h : Half σ) (q : Query α) (w : World σ) : List (σ × Call) :=
  (((h.answer q).finish w).2.calls.drop w.calls.length).map (w.env, ·)

/-- The calls that halves make when they are asked in turn, up to the first value. -/
def Chain.callsFor (q : Query α) : List (String × Half σ) → World σ → List (σ × Call)
  | [], _ => []
  | (_, half) :: rest, w =>
    match half.answer q w with
    | .ok o w' => half.callsFor q w ++ if o.isResolved then [] else callsFor q rest w'
    | .error _ _ => half.callsFor q w

namespace Repository

variable {past more : List (σ × Call)} {q : Query α} {bytes : Bytes}

/-- One of the calls was for a file of the site, and returned this content. -/
def Returned (r : Repository σ) (past : List (σ × Call)) (location : String) (bytes : Bytes) :
    Prop :=
  ∃ e, (e, ⟨.fetch, r.name, location⟩) ∈ past ∧ r.fetched e location = .ok (.ok (some bytes))

/-- One of the calls was a probe for an artifact, and was answered in this way. -/
def Probed (r : Repository σ) (past : List (σ × Call)) (a : Artifact) (found : Bool) : Prop :=
  ∃ e, (e, r.probeCall a) ∈ past ∧
    r.probed e (r.format.artifactLocation a) = .ok (.ok found)

/-- One of the calls was for a lookup, and returned this content, which can be read for it. -/
structure Delivered (r : Repository σ) (past : List (σ × Call)) (q : Query α) (bytes : Bytes) :
    Prop where
  called : ∃ e call, r.call? q = some call ∧ (e, call) ∈ past ∧
    r.siteContent e q = .ok (.ok (some bytes))
  readable : ∃ value, r.readBack q bytes = .ok value

theorem Delivered.mono {r : Repository σ} (h : r.Delivered past q bytes) :
    r.Delivered (past ++ more) q bytes := by
  obtain ⟨e, call, hc, hpast, hb⟩ := h.called
  exact ⟨⟨e, call, hc, List.mem_append_left _ hpast, hb⟩, h.readable⟩

/-- What a repository trusts is read from the entry of the lookup. -/
theorem entry_of_trusted {r : Repository σ} {v : Cache.View σ} {e : σ} (hs : r.store.Honest v)
    (he : v.occurs e) (h : r.trusted e q = .ok (some bytes)) :
    ∃ found, v.entry e (r.key q) = some found ∧ r.readBack q bytes = r.readBack q found.1 := by
  cases q with
  | artifact a =>
    rcases hfresh : r.store.hasFresh e (r.rules.trust (Query.artifact a).kind)
        (r.key (.artifact a)) with err | _ | _ <;> rw [trusted, hfresh] at h
    · cases h
    · cases h
    · obtain ⟨found, hentry⟩ := hs.entry_of_hasFresh he hfresh
      exact ⟨found, hentry, rfl⟩
  | _ =>
    obtain ⟨written, hentry⟩ := hs.entry_of_readFresh he h
    exact ⟨_, hentry, rfl⟩

/-- The remote half leaves the environment as it is, or writes what its call returned. -/
theorem remoteHalf_writes (r : Repository σ) (q : Query α) (w : World σ) :
    ((r.remoteHalf.answer q).finish w).2.env = w.env ∨
      ∃ bytes, r.Delivered (r.remoteHalf.callsFor q w) q bytes ∧
        ((r.remoteHalf.answer q).finish w).2.env = (r.store.write w.env (r.key q) bytes).2 := by
  have hcourse := r.remoteHalf_course q w
  rw [Action.seen_eq_finish] at hcourse
  rw [Half.callsFor]
  generalize (r.remoteHalf.answer q).finish w = ended at hcourse
  obtain ⟨result, w'⟩ := ended
  generalize hseen : (result, w'.env, w'.calls) = seen at hcourse
  cases hcourse with
  | kept hc _ hb hv =>
    simp only [Prod.mk.injEq] at hseen
    obtain ⟨_, he, hcalls⟩ := hseen
    refine Or.inr ⟨_, ⟨⟨w.env, _, hc, ?_, hb⟩, _, hv⟩, he⟩
    simp [hcalls]
  | _ =>
    simp only [Prod.mk.injEq] at hseen
    exact Or.inl hseen.2.1

end Repository

/-! ## Runs -/

/-- Repositories with names of their own, which share a cache. Every access to it may fail, and the
sites may be as they please. -/
structure SharedCache (σ : Type) where
  /-- The repositories in the order in which they are asked. -/
  repositories : List (Repository σ)
  /-- What is in the cache. -/
  view : Cache.View σ
  honest : ∀ r ∈ repositories, r.store.Honest view
  listing_eq : ∀ r ∈ repositories, ∀ {s s' : Selector}, s.group = s'.group → s.name = s'.name →
    r.format.listingLocation s = r.format.listingLocation s'
  names_nodup : (repositories.map (·.name)).Nodup

namespace SharedCache

/-- Runs from an empty cache, each with the calls that were made in it, the earliest first. Before
every lookup anything may happen outside, but no entry comes from there. A lookup is one of the
whole chain or of one half, and has a policy of its own. -/
inductive Run (I : SharedCache σ) : List (σ × Call) → World σ → Prop where
  | start {w : World σ} (empty : I.view.Empty w.env) (uncalled : w.calls = []) : Run I [] w
  | outside {past : List (σ × Call)} {w : World σ} {e : σ} (before : Run I past w)
      (occurs : I.view.occurs e)
      (known : ∀ key found, I.view.entry e key = some found → I.view.entry w.env key = some found) :
      Run I past { w with env := e }
  | chain {past : List (σ × Call)} {w w' : World σ} {α : Type}
      {result : Except Panic (Outcome α)} (before : Run I past w) (p : Policy) (q : Query α)
      (ended : ((p.chain I.repositories).lookup q).finish w = (result, w')) :
      Run I (past ++ Chain.callsFor q (p.chain I.repositories).halves w) w'
  | half {past : List (σ × Call)} {w w' : World σ} {α : Type}
      {result : Except Panic (Outcome α)} {name : String} {half : Half σ} (before : Run I past w)
      (p : Policy) (mem : (name, half) ∈ (p.chain I.repositories).halves) (q : Query α)
      (ended : (half.answer q).finish w = (result, w')) :
      Run I (past ++ half.callsFor q w) w'

/-- Every entry is what a site has delivered for the request of its key. -/
structure Sourced (I : SharedCache σ) (past : List (σ × Call)) (e : σ) : Prop where
  occurs : I.view.occurs e
  delivered : ∀ {key found}, I.view.entry e key = some found →
    ∃ r ∈ I.repositories, ∃ (α : Type) (q : Query α), key = r.key q ∧ r.Delivered past q found.1

variable {I : SharedCache σ} {past more : List (σ × Call)} {w w' : World σ} {q : Query α}

theorem Sourced.mono {e : σ} (h : I.Sourced past e) : I.Sourced (past ++ more) e := by
  refine ⟨h.occurs, fun hentry => ?_⟩
  obtain ⟨r, hr, α, q, hkey, hdelivered⟩ := h.delivered hentry
  exact ⟨r, hr, α, q, hkey, hdelivered.mono⟩

/-- A write of what was delivered keeps every entry sourced. -/
theorem Sourced.write {e : σ} (h : I.Sourced past e) {r : Repository σ} (hr : r ∈ I.repositories)
    {bytes : Bytes} (hd : r.Delivered past q bytes) :
    I.Sourced past (r.store.write e (r.key q) bytes).2 := by
  refine ⟨(I.honest r hr).occurs_write h.occurs, fun hentry => ?_⟩
  rcases (I.honest r hr).entry_write h.occurs hentry with hold | ⟨rfl, rfl⟩
  · exact h.delivered hold
  · exact ⟨r, hr, _, q, rfl, hd⟩

/-- The halves of a chain are local ones, remote ones, or those that take their place offline. -/
theorem mem_halves {p : Policy} {name : String} {half : Half σ}
    (h : (name, half) ∈ (p.chain I.repositories).halves) :
    (∃ r ∈ I.repositories, half = (r.under p).localHalf) ∨ half = offlineHalf ∨
      ∃ r ∈ I.repositories, half = (r.under p).remoteHalf := by
  cases hp : p.offline with
  | true =>
    rw [Chain.halves_chain_offline hp] at h
    simp only [List.mem_append, List.mem_map, Prod.mk.injEq] at h
    rcases h with ⟨r, hr, _, rfl⟩ | ⟨r, _, _, rfl⟩
    · exact Or.inl ⟨r, hr, rfl⟩
    · exact Or.inr (Or.inl rfl)
  | false =>
    rw [Chain.halves_chain_online hp] at h
    simp only [List.mem_append, List.mem_map, Prod.mk.injEq] at h
    rcases h with ⟨r, hr, _, rfl⟩ | ⟨r, hr, _, rfl⟩
    · exact Or.inl ⟨r, hr, rfl⟩
    · exact Or.inr (Or.inr ⟨r, hr, rfl⟩)

theorem calls_of_half {p : Policy} {name : String} {half : Half σ}
    (hmem : (name, half) ∈ (p.chain I.repositories).halves) (q : Query α) (w : World σ) :
    ((half.answer q).finish w).2.calls = w.calls ++ (half.callsFor q w).map (·.2) := by
  have hprefix : ∃ calls, ((half.answer q).finish w).2.calls = w.calls ++ calls := by
    rcases mem_halves hmem with ⟨r, _, rfl⟩ | rfl | ⟨r, _, rfl⟩
    · rw [Action.finish, (r.under p).localHalf_answer]
      exact ⟨[], (List.append_nil _).symm⟩
    · rw [Action.finish, offlineHalf_answer]
      exact ⟨[], (List.append_nil _).symm⟩
    · exact (r.under p).remoteHalf_calls q w
  obtain ⟨calls, hcalls⟩ := hprefix
  simp [Half.callsFor, hcalls, Function.comp_def]

/-- Asking a half keeps every entry sourced. -/
theorem Sourced.half (h : I.Sourced past w.env) {p : Policy} {name : String} {half : Half σ}
    (hmem : (name, half) ∈ (p.chain I.repositories).halves) (q : Query α) :
    I.Sourced (past ++ half.callsFor q w) ((half.answer q).finish w).2.env := by
  rcases mem_halves hmem with ⟨r, hr, rfl⟩ | rfl | ⟨r, hr, rfl⟩
  · have he : ((((r.under p).localHalf.answer q).finish w).2).env = w.env := by
      rw [Action.finish, (r.under p).localHalf_answer]
    exact he.symm ▸ h.mono
  · have he : (((offlineHalf.answer q).finish w).2).env = w.env := by
      rw [Action.finish, offlineHalf_answer]
    exact he.symm ▸ h.mono
  · rcases (r.under p).remoteHalf_writes q w with he | ⟨bytes, hd, he⟩
    · exact he.symm ▸ h.mono
    · rw [he]
      -- the policy changes how long entries are trusted, not where they come from
      have hd : r.Delivered ((r.under p).remoteHalf.callsFor q w) q bytes := by
        obtain ⟨⟨e, call, hc, hpast, hb⟩, hv⟩ := hd
        cases q <;> exact ⟨⟨e, call, hc, hpast, hb⟩, hv⟩
      have hd : r.Delivered (past ++ (r.under p).remoteHalf.callsFor q w) q bytes := by
        obtain ⟨⟨e, call, hc, hpast, hb⟩, hv⟩ := hd
        exact ⟨⟨e, call, hc, List.mem_append_right _ hpast, hb⟩, hv⟩
      rw [Repository.under_key]
      exact h.mono.write hr hd

/-- The calls that come with a run are those that were made, and every entry is sourced. -/
structure Traced (I : SharedCache σ) (past : List (σ × Call)) (w : World σ) : Prop where
  calls_eq : w.calls = past.map (·.2)
  sourced : I.Sourced past w.env

theorem Traced.half (h : I.Traced past w) {p : Policy} {name : String} {half : Half σ}
    (hmem : (name, half) ∈ (p.chain I.repositories).halves) (q : Query α) :
    I.Traced (past ++ half.callsFor q w) ((half.answer q).finish w).2 where
  calls_eq := by rw [calls_of_half hmem, h.calls_eq, List.map_append]
  sourced := h.sourced.half hmem q

/-- Asking halves in turn, each in the world that the one before it left. -/
theorem Traced.ask {p : Policy} {halves : List (String × Half σ)} (h : I.Traced past w)
    (hmem : ∀ half ∈ halves, half ∈ (p.chain I.repositories).halves) (q : Query α)
    (failures : List (String × Failure)) :
    I.Traced (past ++ Chain.callsFor q halves w)
      ((Chain.ask q.operation q.subject (·.answer q) failures halves).finish w).2 := by
  induction halves generalizing w past failures with
  | nil =>
    rw [Chain.callsFor, List.append_nil]
    cases failures with
    | nil => exact h
    | cons f rest => exact h
  | cons half rest ih =>
    obtain ⟨name, half⟩ := half
    have hhalf := h.half (hmem _ List.mem_cons_self) q
    rw [Action.finish, Chain.ask_cons, Chain.callsFor]
    rw [Action.finish] at hhalf
    cases ha : half.answer q w with
    | error panic w₁ => rw [ha] at hhalf; exact hhalf
    | ok o w₁ =>
      rw [ha] at hhalf
      have hrest := fun failures => ih hhalf
        (fun half hh => hmem half (List.mem_cons_of_mem _ hh)) failures
      rw [List.append_assoc] at hrest
      rcases o with ⟨_ | value | failure | _⟩
      · exact hrest failures
      · simpa [Outcome.isResolved] using hhalf
      · exact hrest (failures ++ [(name, failure)])
      · exact hrest failures

/-- What every step of a run keeps, a run keeps. -/
theorem Run.traced (h : I.Run past w) : I.Traced past w := by
  induction h with
  | start empty uncalled =>
    refine ⟨uncalled, empty.occurs, fun hentry => ?_⟩
    rw [empty.entry_eq] at hentry
    cases hentry
  | outside _ occurs known ih =>
    exact ⟨ih.calls_eq, occurs, fun hentry => ih.sourced.delivered (known _ _ hentry)⟩
  | chain _ p q ended ih =>
    have hask := ih.ask (p := p) (fun _ hh => hh) q []
    rw [← Chain.lookup_eq_ask, ended] at hask
    exact hask
  | half _ p mem q ended ih =>
    have hhalf := ih.half mem q
    rw [ended] at hhalf
    exact hhalf

/-! ## What is in the cache -/

section Entries

variable {e : σ} {r : Repository σ} {bytes : Bytes} {written : Nat}

theorem eq_of_name {r' : Repository σ} (hr : r ∈ I.repositories) (hr' : r' ∈ I.repositories)
    (h : r.name = r'.name) : r = r' :=
  List.inj_on_of_nodup_map I.names_nodup hr hr' h

/-- An entry of a repository was delivered by that repository, for the request of its key. -/
theorem Sourced.delivered_of_key (h : I.Sourced past e) (hr : r ∈ I.repositories)
    (request : Cache.Request)
    (hentry : I.view.entry e (.ofRequest r.name request) = some (bytes, written)) :
    ∃ (β : Type) (q : Query β), q.request = request ∧ r.Delivered past q bytes := by
  obtain ⟨r', hr', β, q, hkey, hd⟩ := h.delivered hentry
  rw [r'.key_eq] at hkey
  obtain ⟨hname, hrequest⟩ := Cache.Key.ofRequest_injective hkey
  obtain rfl := eq_of_name hr hr' hname
  exact ⟨β, q, hrequest.symm, hd⟩

variable (h : I.Sourced past e) (hr : r ∈ I.repositories)
include h hr

theorem Sourced.descriptor {c : Coordinate}
    (hentry : I.view.entry e (.descriptor r.name c) = some (bytes, written)) :
    r.Returned past (r.format.descriptorLocation c) bytes ∧
      ∃ m, r.format.readMetadata c bytes = .ok m := by
  obtain ⟨β, q, hq, ⟨e', call, hc, hpast, hb⟩, hv⟩ :=
    h.delivered_of_key hr (.descriptor c) hentry
  cases q with
  | metadata c' =>
    obtain rfl := Cache.Request.descriptor.inj hq
    obtain rfl := Option.some.inj hc
    exact ⟨⟨e', hpast, hb⟩, hv⟩
  | _ => cases hq

theorem Sourced.listing {s : Selector}
    (hentry : I.view.entry e (.listing r.name s) = some (bytes, written)) :
    r.Returned past (r.format.listingLocation s) bytes ∧
      ∃ versions, r.format.readVersions bytes = .ok versions := by
  obtain ⟨β, q, hq, ⟨e', call, hc, hpast, hb⟩, hv⟩ :=
    h.delivered_of_key hr (.listing s.group s.name) hentry
  cases q with
  | versions s' =>
    -- the constraint of the selector has no part in the place of a listing
    obtain ⟨hg, hn⟩ := Cache.Request.listing.inj hq
    rw [I.listing_eq r hr hg.symm hn.symm]
    obtain rfl := Option.some.inj hc
    exact ⟨⟨e', hpast, hb⟩, hv⟩
  | _ => cases hq

theorem Sourced.artifact {a : Artifact}
    (hentry : I.view.entry e (.artifact r.name a) = some (bytes, written)) :
    r.Returned past (r.format.artifactLocation a) bytes := by
  obtain ⟨β, q, hq, ⟨e', call, hc, hpast, hb⟩, _⟩ :=
    h.delivered_of_key hr (.artifact a) hentry
  cases q with
  | artifact a' =>
    obtain rfl := Cache.Request.artifact.inj hq
    obtain rfl := Option.some.inj hc
    exact ⟨e', hpast, hb⟩
  | _ => cases hq

theorem Sourced.artifactSet {c : Coordinate} {category : Category}
    (hentry : I.view.entry e (.artifactSet r.name c category) = some (bytes, written)) :
    ∃ extension candidate found, category.candidate? c extension = some candidate ∧
      r.Probed past candidate found ∧
      bytes = ProbeRecord.encode (if found then [candidate] else []) := by
  obtain ⟨β, q, hq, ⟨e', call, hc, hpast, hb⟩, _⟩ :=
    h.delivered_of_key hr (.artifactSet c category) hentry
  cases q with
  | artifacts m category' =>
    obtain ⟨rfl, rfl⟩ := Cache.Request.artifactSet.inj hq
    cases hcandidate : category'.candidate? m.coordinate m.extension with
    | none => rw [Repository.call?, hcandidate] at hc; cases hc
    | some candidate =>
      rw [r.call?_of_candidate hcandidate] at hc
      obtain rfl := Option.some.inj hc
      rw [r.siteContent_of_candidate hcandidate] at hb
      rcases hprobe : r.probed e' (r.format.artifactLocation candidate) with p | err | found <;>
        rw [hprobe] at hb
      · cases hb
      · cases hb
      · obtain rfl := Option.some.inj (Except.ok.inj (Except.ok.inj hb))
        exact ⟨m.extension, candidate, found, hcandidate, ⟨e', hpast, hprobe⟩, rfl⟩
  | _ => cases hq

/-- What is read of an entry can always be read for the lookup that reads it. -/
theorem Sourced.readable {q : Query α}
    (hentry : I.view.entry e (r.key q) = some (bytes, written)) :
    ∃ value, r.readBack q bytes = .ok value := by
  cases q with
  | versions s => exact (h.listing hr hentry).2
  | metadata c => exact (h.descriptor hr hentry).2
  | artifacts m category =>
    obtain ⟨extension, candidate, found, hcandidate, _, rfl⟩ := h.artifactSet hr hentry
    exact ⟨_, Repository.decode_encode_candidate hcandidate found⟩
  | artifact a => exact ⟨_, rfl⟩

/-- Where the metadata does not answer, a local half answers with what an entry of its own holds,
or with a failure of the store, or not at all. -/
theorem Sourced.localAnswer (p : Policy) {q : Query α} (hd : q.declared? = none) :
    (∃ found value, I.view.entry e (r.key q) = some found ∧ r.readBack q found.1 = .ok value ∧
        (r.under p).localAnswer e q = .resolved value) ∨
      (∃ cause, (r.under p).localAnswer e q = .failed (.cache q.entrySubject r.name cause)) ∨
      (r.under p).localAnswer e q = .unset := by
  rw [Repository.localAnswer_of_undeclared hd]
  rcases htrusted : (r.under p).trusted e q with cause | _ | bytes
  · exact Or.inr (Or.inl ⟨cause, rfl⟩)
  · exact Or.inr (Or.inr rfl)
  · obtain ⟨found, hentry, hsame⟩ :=
      Repository.entry_of_trusted (r := r.under p) (I.honest r hr) h.occurs htrusted
    rw [Repository.under_key] at hentry
    obtain ⟨value, hv⟩ := h.readable hr hentry
    refine Or.inl ⟨found, value, hentry, hv, ?_⟩
    rw [Repository.answerOf_eq_resolved_iff]
    exact ⟨bytes, rfl, by rw [hsame, Repository.under_readBack, hv]⟩

end Entries

/-- What is known of the entries and of the local lookups in a world that a run leads to. -/
structure Provenance (I : SharedCache σ) (past : List (σ × Call)) (w : World σ) : Prop where
  /-- These are the calls that were made. -/
  calls_eq : w.calls = past.map (·.2)
  /-- Every entry is one of a repository, and of one kind. -/
  known : ∀ {key found}, I.view.entry w.env key = some found →
    ∃ r ∈ I.repositories, ∃ request, key = .ofRequest r.name request
  descriptor : ∀ r ∈ I.repositories, ∀ c {bytes written},
    I.view.entry w.env (.descriptor r.name c) = some (bytes, written) →
      r.Returned past (r.format.descriptorLocation c) bytes ∧
        ∃ m, r.format.readMetadata c bytes = .ok m
  listing : ∀ r ∈ I.repositories, ∀ s {bytes written},
    I.view.entry w.env (.listing r.name s) = some (bytes, written) →
      r.Returned past (r.format.listingLocation s) bytes ∧
        ∃ versions, r.format.readVersions bytes = .ok versions
  artifact : ∀ r ∈ I.repositories, ∀ a {bytes written},
    I.view.entry w.env (.artifact r.name a) = some (bytes, written) →
      r.Returned past (r.format.artifactLocation a) bytes
  artifactSet : ∀ r ∈ I.repositories, ∀ c category {bytes written},
    I.view.entry w.env (.artifactSet r.name c category) = some (bytes, written) →
      ∃ extension candidate found, category.candidate? c extension = some candidate ∧
        r.Probed past candidate found ∧
        bytes = ProbeRecord.encode (if found then [candidate] else [])
  /-- No local lookup fails for the content of an entry, whatever the policy. -/
  parsed : ∀ r ∈ I.repositories, ∀ (p : Policy) {α : Type} (q : Query α) {subject name cause w'},
    (r.under p).localHalf.answer q w ≠ .ok (.failed (.parse subject name cause)) w'
  /-- A local lookup that the metadata does not answer is served from the entry of its own
  repository and request, whatever the policy. -/
  served : ∀ r ∈ I.repositories, ∀ (p : Policy) {α : Type} (q : Query α) {value w'},
    q.declared? = none → (r.under p).localHalf.answer q w = .ok (.resolved value) w' →
      ∃ found, I.view.entry w.env (.ofRequest r.name q.request) = some found ∧
        r.readBack q found.1 = .ok value
  /-- No two repositories and no two requests share an entry. -/
  apart : ∀ r ∈ I.repositories, ∀ r' ∈ I.repositories, ∀ {request request'},
    Cache.Key.ofRequest r.name request = .ofRequest r'.name request' → r = r' ∧ request = request'

/-- Wherever a run leads to, every entry comes from the site of its own repository and can be read
for its own request, and is served for no other. -/
theorem provenance (h : I.Run past w) : I.Provenance past w where
  calls_eq := h.traced.calls_eq
  known hentry := by
    obtain ⟨r, hr, _, q, hkey, _⟩ := h.traced.sourced.delivered hentry
    exact ⟨r, hr, q.request, hkey.trans (r.key_eq q)⟩
  descriptor _ hr _ _ _ hentry := h.traced.sourced.descriptor hr hentry
  listing _ hr _ _ _ hentry := h.traced.sourced.listing hr hentry
  artifact _ hr _ _ _ hentry := h.traced.sourced.artifact hr hentry
  artifactSet _ hr _ _ _ _ hentry := h.traced.sourced.artifactSet hr hentry
  parsed r hr p _ q subject name cause w' hfailed := by
    rw [(r.under p).localHalf_answer] at hfailed
    have hfailed := (EStateM.Result.ok.inj hfailed).1
    cases hd : q.declared? with
    | some o =>
      rw [Repository.localAnswer_of_declared hd] at hfailed
      exact q.declared?_ne_parse (hfailed ▸ hd)
    | none =>
      obtain ⟨_, value, _, _, hv⟩ | ⟨error, hv⟩ | hv := h.traced.sourced.localAnswer hr p hd <;>
        rw [hv] at hfailed <;> simp [Outcome.failed, Outcome.resolved, Outcome.unset] at hfailed
  served r hr p _ q value w' hd hresolved := by
    rw [(r.under p).localHalf_answer] at hresolved
    have hresolved := (EStateM.Result.ok.inj hresolved).1
    obtain ⟨found, value', hentry, hread, hv⟩ | ⟨error, hv⟩ | hv :=
      h.traced.sourced.localAnswer hr p hd
    · obtain rfl := Outcome.resolved_injective (hv.symm.trans hresolved)
      exact ⟨found, r.key_eq q ▸ hentry, hread⟩
    · rw [hv] at hresolved
      simp [Outcome.failed, Outcome.resolved] at hresolved
    · rw [hv] at hresolved
      simp [Outcome.unset, Outcome.resolved] at hresolved
  apart r hr r' hr' _ _ hkey := by
    obtain ⟨hname, hrequest⟩ := Cache.Key.ofRequest_injective hkey
    exact ⟨eq_of_name hr hr' hname, hrequest⟩

end SharedCache

/-! ## Repositories that share the memory of an environment -/

namespace Environment

/-- The entries in memory, whatever the sites are and whatever accesses are made to fail. -/
def anyView : Cache.View Environment := { view [] with occurs := fun _ => True }

theorem entry_of_guarded {e : Environment} {access : Cache.Access} {key : Cache.Key}
    {f : Cache.MemoryEntry → α} {value : α}
    (h : e.memory.guarded access key ((e.memory.entries.lookup key).map f) = .ok (some value)) :
    ∃ found, e.memory.entries.lookup key = some found ∧ f found = value := by
  rw [Cache.Memory.guarded] at h
  split at h
  · cases h
  · exact Option.map_eq_some_iff.1 (Except.ok.inj h)

/-- A memory of which accesses fail does not make up entries. -/
theorem memoryStore_honest : memoryStore.Honest anyView where
  read_some _ h := by
    obtain ⟨found, hlookup, rfl⟩ := entry_of_guarded h
    exact ⟨found.written, congrArg (Option.map _) hlookup⟩
  age_some _ h := by
    obtain ⟨found, hlookup, _⟩ := entry_of_guarded h
    exact ⟨_, congrArg (Option.map _) hlookup⟩
  occurs_write _ := trivial
  entry_write {e key bytes other found} _ h := by
    cases hfault : e.memory.fault? .write key with
    | some text =>
      have hsame : (memoryStore.write e key bytes).2 = e := by
        simp [memoryStore, Cache.Store.within, Cache.Memory.store, memoryLens, hfault]
      exact Or.inl (hsame ▸ h)
    | none =>
      have hinsert : (memoryStore.write e key bytes).2.memory = e.memory.insert key bytes := by
        simp [memoryStore, Cache.Store.within, Cache.Memory.store, memoryLens, hfault]
      change ((memoryStore.write e key bytes).2.memory.entries.lookup other).map _ = _ at h
      rw [hinsert, Cache.Memory.lookup_insert] at h
      split at h
      · next hother => exact Or.inr ⟨hother, by rw [← Option.some.inj h]⟩
      · exact Or.inl h

/-- Repositories that share the memory of an environment, each with a site of its own. -/
def sharedMemory (layouts : List (String × Layout)) (h : (layouts.map (·.1)).Nodup) :
    SharedCache Environment where
  repositories := (installation layouts [] h).repositories
  view := anyView
  honest r hr := by
    obtain ⟨entry, _, rfl⟩ := List.mem_map.1 hr
    exact memoryStore_honest
  listing_eq r hr := ((installation layouts [] h).lawful r hr).listing_eq
  names_nodup := (installation layouts [] h).names_nodup

/-- The repositories of the sample, whose sites may change now. -/
def sampleShared : SharedCache Environment :=
  sharedMemory [("central", {}), ("mirror", {})] sample.names_nodup

/-- A world in which a file was downloaded. -/
def sampleDownloaded : World Environment :=
  (((({} : Policy).chain sampleShared.repositories).lookup (.artifact sampleArtifact)).finish
    sampleStart).2

theorem calls_sampleDownloaded : sampleDownloaded.calls =
    [⟨.fetch, "central", "g/m/1/m-1.jar"⟩, ⟨.fetch, "mirror", "g/m/1/m-1.jar"⟩] := by
  cbv

theorem entry_sampleDownloaded :
    sampleShared.view.entry sampleDownloaded.env (.artifact "mirror" sampleArtifact) =
      some ([1, 2, 3], 0) := by
  cbv

/-- A file is downloaded, and its site is gone when it is looked at again. -/
theorem sample_provenance :
    let q : Query Located := .artifact sampleArtifact
    let calls := Chain.callsFor q (({} : Policy).chain sampleShared.repositories).halves sampleStart
    let later := { sampleDownloaded with env := { sampleDownloaded.env with sites := [] } }
    later.calls = [⟨.fetch, "central", "g/m/1/m-1.jar"⟩, ⟨.fetch, "mirror", "g/m/1/m-1.jar"⟩] ∧
      sampleShared.view.entry later.env (.artifact "mirror" sampleArtifact) =
        some ([1, 2, 3], 0) ∧
      sampleShared.Run calls later ∧ sampleShared.Provenance calls later := by
  intro q calls later
  have hstart : sampleShared.Run [] sampleStart := .start ⟨trivial, fun _ => rfl⟩ rfl
  have hfirst : sampleShared.Run calls sampleDownloaded := .chain hstart {} q rfl
  have hlater : sampleShared.Run calls later := .outside hfirst trivial fun _ _ hentry => hentry
  exact ⟨calls_sampleDownloaded, entry_sampleDownloaded, hlater, SharedCache.provenance hlater⟩

end Environment
end ArtifactResolver
