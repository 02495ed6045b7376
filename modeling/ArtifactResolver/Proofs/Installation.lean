import ArtifactResolver.Proofs.Cache.Key
import ArtifactResolver.Proofs.Cache.Map
import ArtifactResolver.Proofs.Chain.Session
import ArtifactResolver.Proofs.Chain.Settle
import ArtifactResolver.Proofs.Format.Descriptor
import ArtifactResolver.Proofs.Repository.Remote

/-!
# Installations

An installation is a list of repositories with names of their own, which share a cache that is a map
with write times, and whose sites always reply in the same way. Without a cache, the outcome of a
lookup would then be what the sites answer, one after the other. With the cache it is the same, as
long as the cache is consistent: an entry holds what the site of its repository has, and no earlier
repository has anything for its request.
-/

namespace ArtifactResolver

variable {σ α β : Type}

/-! ## Formats -/

/-- What a repository relies on its format for: a listing is found by the module alone, whatever
versions of it will do, and metadata describes the module version that was asked for. -/
structure Format.Lawful (f : Format) : Prop where
  listing_eq : ∀ {s s' : Selector}, s.group = s'.group → s.name = s'.name →
    f.listingLocation s = f.listingLocation s'
  coordinate_eq : ∀ {c : Coordinate} {bytes : Bytes} {m : Metadata},
    f.readMetadata c bytes = .ok m → m.coordinate = c

/-- The format that is built in is lawful for every layout. -/
theorem Format.toml_lawful (l : Layout) : (Format.toml l).Lawful where
  listing_eq {s s'} hg hn := by
    show l.listingLocation s.group s.name = l.listingLocation s'.group s'.name
    rw [hg, hn]
  coordinate_eq h := Descriptor.coordinate_of_read h

/-! ## Requests -/

/-- What is asked of a repository by a lookup. -/
def Query.request : Query α → Cache.Request
  | versions s => .listing s.group s.name
  | metadata c => .descriptor c
  | artifacts m category => .artifactSet m.coordinate category
  | artifact a => .artifact a

theorem Repository.key_eq (r : Repository σ) (q : Query α) :
    r.key q = .ofRequest r.name q.request := by
  cases q <;> rfl

/-- Two lookups are answered by the same files: they are the same, or they list the versions of the
same module. -/
inductive Query.Same : {α β : Type} → Query α → Query β → Prop where
  | refl {α : Type} (q : Query α) : Same q q
  | versions {s s' : Selector} (hg : s.group = s'.group) (hn : s.name = s'.name) :
      Same (versions s) (versions s')

namespace Repository

/-- The site has content for a lookup, and it can be read. -/
def Serves (r : Repository σ) (env : σ) (q : Query α) (bytes : Bytes) : Prop :=
  r.siteContent env q = .ok (.ok (some bytes)) ∧ ∃ value, r.readBack q bytes = .ok value

/-- The site answers a lookup, and does not have a value for it. -/
def Barren (r : Repository σ) (env : σ) (q : Query α) : Prop :=
  (∃ content, r.siteContent env q = .ok content) ∧ ∀ bytes, ¬ r.Serves env q bytes

variable {r : Repository σ} {env env' : σ} {q : Query α} {q' : Query β} {bytes : Bytes}

theorem siteContent_of_static {occurs : σ → Prop} (ht : r.transport.Static occurs)
    (h : occurs env) (h' : occurs env') (q : Query α) :
    r.siteContent env q = r.siteContent env' q := by
  cases q with
  | artifacts m category =>
    cases hc : category.candidate? m.coordinate m.extension <;>
      simp only [siteContent, hc, ht.probe_eq h h']
  | _ => simp only [siteContent, fetched, ht.fetch_eq h h']

theorem siteAnswer_of_static {occurs : σ → Prop} (ht : r.transport.Static occurs)
    (h : occurs env) (h' : occurs env') (q : Query α) :
    r.siteAnswer env q = r.siteAnswer env' q := by
  rw [siteAnswer, siteAnswer, siteContent_of_static ht h h' q]

theorem siteContent_of_same (hf : r.format.Lawful) (h : q.Same q') :
    r.siteContent env q = r.siteContent env q' := by
  cases h with
  | refl => rfl
  | versions hg hn => simp only [siteContent, hf.listing_eq hg hn]

theorem serves_iff_of_same (hf : r.format.Lawful) (h : q.Same q') :
    r.Serves env q bytes ↔ r.Serves env q' bytes := by
  rw [Serves, Serves, siteContent_of_same hf h]
  cases h <;> rfl

theorem barren_iff_of_same (hf : r.format.Lawful) (h : q.Same q') :
    r.Barren env q ↔ r.Barren env q' := by
  rw [Barren, Barren, siteContent_of_same hf h]
  simp only [serves_iff_of_same hf h]

theorem Serves.siteAnswer_eq {value : α} (h : r.Serves env q bytes)
    (hv : r.readBack q bytes = .ok value) : r.siteAnswer env q = .ok (.resolved value) :=
  siteAnswer_eq_resolved_iff.2 ⟨bytes, h.1, hv⟩

/-- A site that answers without a value is barren, and the other way round. -/
theorem barren_iff : r.Barren env q ↔
    ∃ o, r.siteAnswer env q = .ok o ∧ o.isResolved = false := by
  constructor
  · rintro ⟨⟨content, hc⟩, hs⟩
    refine ⟨_, by rw [siteAnswer, hc]; rfl, ?_⟩
    cases hr : Outcome.isResolved _ with
    | false => rfl
    | true =>
      obtain ⟨value, hv⟩ := Outcome.isResolved_iff.1 hr
      have ha : r.siteAnswer env q = .ok (.resolved value) := by rw [siteAnswer, hc, ← hv]; rfl
      obtain ⟨bytes, hb, hread⟩ := siteAnswer_eq_resolved_iff.1 ha
      exact absurd ⟨hb, value, hread⟩ (hs bytes)
  · rintro ⟨o, ho, hu⟩
    constructor
    · cases hc : r.siteContent env q with
      | error p =>
        rw [siteAnswer, hc] at ho
        cases ho
      | ok content => exact ⟨content, rfl⟩
    · rintro bytes ⟨hb, value, hv⟩
      rw [siteAnswer_eq_resolved_iff.2 ⟨bytes, hb, hv⟩, Except.ok.injEq] at ho
      rw [← ho] at hu
      cases hu

end Repository

/-! ## Without a cache -/

/-- Repositories with names of their own, which share a cache that is a map with write times, and
whose sites always reply in the same way. -/
structure Installation (σ : Type) where
  /-- The repositories in the order in which they are asked. -/
  repositories : List (Repository σ)
  /-- The cache that they share. -/
  view : Cache.View σ
  /-- An environment with an empty cache. -/
  origin : σ
  origin_empty : view.Empty origin
  shows : ∀ r ∈ repositories, r.store.Shows view
  lawful : ∀ r ∈ repositories, r.format.Lawful
  static : ∀ r ∈ repositories, r.transport.Static view.occurs
  names_nodup : (repositories.map (·.name)).Nodup

namespace Installation

variable (I : Installation σ)

/-- What a repository answers without a cache. -/
def answer (q : Query α) (r : Repository σ) : Except Panic (Outcome α) :=
  match q.declared? with
  | some o => .ok o
  | none => r.siteAnswer I.origin q

/-- The outcome of a lookup without a cache. -/
def uncached (q : Query α) : Except Panic (Outcome α) :=
  Chain.settle q.operation q.subject [] (I.repositories.map fun r => (r.name, I.answer q r))

/-- A lookup that a session can come to: companions are asked for with metadata that the chain
itself resolves. -/
def Admits : Query α → Prop
  | .artifacts m _ => I.uncached (.metadata m.coordinate) = .ok (.resolved m)
  | _ => True

variable {I}

theorem same_of_request {q : Query α} {q' : Query β} (hq : I.Admits q) (hq' : I.Admits q')
    (h : q.request = q'.request) : q.Same q' := by
  cases q <;> cases q' <;> simp only [Query.request, Cache.Request.descriptor.injEq,
    Cache.Request.listing.injEq, Cache.Request.artifact.injEq, Cache.Request.artifactSet.injEq,
    reduceCtorEq] at h
  · exact .versions h.1 h.2
  · exact h ▸ .refl _
  · obtain ⟨hc, rfl⟩ := h
    simp only [Admits] at hq hq'
    rw [hc, hq'] at hq
    have hm : _ = _ := Outcome.resolved_injective (Except.ok.inj hq)
    exact hm ▸ .refl _
  · exact h ▸ .refl _

/-- Of repositories with names of their own, no two have the same name. -/
theorem split_unique {before before' after after' : List (Repository σ)} {r r' : Repository σ}
    (h : I.repositories = before ++ r :: after) (h' : I.repositories = before' ++ r' :: after')
    (hname : r.name = r'.name) : before = before' ∧ r = r' := by
  have hi : (I.repositories.map (·.name))[before.length]? = some r.name := by simp [h]
  have hi' : (I.repositories.map (·.name))[before'.length]? = some r'.name := by simp [h']
  have hlt : before.length < (I.repositories.map (·.name)).length := by
    rw [List.length_map, h, List.length_append, List.length_cons]
    omega
  have hlength : before.length = before'.length :=
    (List.getElem?_inj hlt I.names_nodup).1 (by rw [hi, hi', hname])
  rw [h'] at h
  obtain ⟨hb, hr⟩ := List.append_inj h hlength.symm
  exact ⟨hb.symm, (List.cons.inj hr).1.symm⟩

/-! ## The invariant -/

/-- Every entry holds what the site of its repository has, and no earlier repository has anything
for the request. -/
structure Consistent (I : Installation σ) (e : σ) : Prop where
  occurs : I.view.occurs e
  served : ∀ {before after : List (Repository σ)} {r : Repository σ},
    I.repositories = before ++ r :: after → ∀ {α : Type} {q : Query α}, I.Admits q →
    ∀ {bytes : Bytes} {written : Nat}, I.view.entry e (r.key q) = some (bytes, written) →
    r.Serves I.origin q bytes ∧ ∀ r' ∈ before, r'.Barren I.origin q

/-- The cache was consistent, and since then at most more was kept. -/
structure Grown (I : Installation σ) (e e' : σ) : Prop where
  consistent : I.Consistent e'
  keeps : ∀ {key}, (I.view.entry e key).isSome → (I.view.entry e' key).isSome

theorem Consistent.of_empty {e : σ} (h : I.view.Empty e) : I.Consistent e where
  occurs := h.occurs
  served _ _ _ _ _ _ hentry := by
    rw [h.entry_eq] at hentry
    cases hentry

theorem Grown.refl {e : σ} (h : I.Consistent e) : I.Grown e e := ⟨h, id⟩

theorem Grown.trans {e e' e'' : σ} (h : I.Grown e e') (h' : I.Grown e' e'') : I.Grown e e'' :=
  ⟨h'.consistent, fun hk => h'.keeps (h.keeps hk)⟩

/-- Time makes entries older, which does not make them wrong. -/
theorem Grown.of_later {e e' : σ} (h : I.Consistent e) (hl : I.view.Later e e') : I.Grown e e' where
  consistent := {
    occurs := hl.occurs
    served hr _ _ hq _ _ hentry := h.served hr hq (by rw [← hl.entry_eq]; exact hentry) }
  keeps hk := by rwa [hl.entry_eq]

/-- Keeping what a site has, when no earlier one has anything, leaves the cache consistent. -/
theorem Grown.of_write {e : σ} (h : I.Consistent e) {before after : List (Repository σ)}
    {r : Repository σ} (hr : I.repositories = before ++ r :: after) {q : Query α} (hq : I.Admits q)
    {bytes : Bytes} (hs : r.Serves I.origin q bytes) (hb : ∀ r' ∈ before, r'.Barren I.origin q) :
    I.Grown e (r.store.write e (r.key q) bytes).2 := by
  have hmem : r ∈ I.repositories := by simp [hr]
  have hentry := (I.shows r hmem).entry_write h.occurs (r.key q) bytes
  refine ⟨⟨(I.shows r hmem).occurs_write h.occurs _ _, ?_⟩, ?_⟩
  · intro before' after' r' hr' β q' hq' bytes' written hfound
    rw [hentry] at hfound
    by_cases hkey : r'.key q' = r.key q
    -- one key for two lookups: they ask the same repository for the same
    · rw [if_pos hkey] at hfound
      rw [r'.key_eq, r.key_eq] at hkey
      obtain ⟨hname, hrequest⟩ := Cache.Key.ofRequest_injective hkey
      obtain ⟨rfl, rfl⟩ := split_unique hr' hr hname
      have hsame := same_of_request hq' hq hrequest
      obtain rfl : bytes = bytes' := (Prod.mk.inj (Option.some.inj hfound)).1
      refine ⟨(Repository.serves_iff_of_same (I.lawful r' hmem) hsame).2 hs, ?_⟩
      intro r'' hr''
      have hmem'' : r'' ∈ I.repositories := by simp [hr, hr'']
      exact (Repository.barren_iff_of_same (I.lawful r'' hmem'') hsame).2 (hb r'' hr'')
    · rw [if_neg hkey] at hfound
      exact h.served hr' hq' hfound
  · intro key hk
    rw [hentry]
    by_cases hkey : key = r.key q
    · rw [if_pos hkey]
      rfl
    · rwa [if_neg hkey]

/-! ## One lookup -/

/-- The answer to a lookup is in the cache, or the metadata gives it. -/
def Kept (I : Installation σ) (e : σ) (q : Query α) : Prop :=
  q.declared? ≠ none ∨ ∃ r ∈ I.repositories, (I.view.entry e (r.key q)).isSome

theorem Kept.of_grown {e e' : σ} {q : Query α} (h : I.Kept e q) (hg : I.Grown e e') :
    I.Kept e' q := by
  rcases h with hd | ⟨r, hr, hk⟩
  · exact Or.inl hd
  · exact Or.inr ⟨r, hr, hg.keeps hk⟩

/-- The metadata of a module version describes that module version. -/
theorem coordinate_eq_of_uncached {c : Coordinate} {m : Metadata}
    (h : I.uncached (.metadata c) = .ok (.resolved m)) : m.coordinate = c := by
  obtain ⟨answer, ha, hv⟩ := Chain.exists_of_settle h
  obtain ⟨r, hr, rfl⟩ := List.mem_map.1 ha
  obtain ⟨bytes, _, hread⟩ := Repository.siteAnswer_eq_resolved_iff.1 hv
  exact (I.lawful r hr).coordinate_eq hread

theorem admits_of_uncached {c : Coordinate} {m : Metadata}
    (h : I.uncached (.metadata c) = .ok (.resolved m)) (category : Category) :
    I.Admits (.artifacts m category) := by
  rw [Admits, coordinate_eq_of_uncached h]
  exact h

/-- What an entry holds is the outcome without a cache. -/
theorem Consistent.uncached_eq {e : σ} (h : I.Consistent e) {before after : List (Repository σ)}
    {r : Repository σ} (hr : I.repositories = before ++ r :: after) {q : Query α} (hq : I.Admits q)
    (hd : q.declared? = none) {bytes : Bytes} {written : Nat} {value : α}
    (hentry : I.view.entry e (r.key q) = some (bytes, written))
    (hv : r.readBack q bytes = .ok value) : I.uncached q = .ok (.resolved value) := by
  obtain ⟨hs, hb⟩ := h.served hr hq hentry
  have hanswer : I.answer q r = .ok (.resolved value) := by
    rw [answer, hd]
    exact hs.siteAnswer_eq hv
  rw [uncached, hr, List.map_append, List.map_cons, hanswer]
  refine Chain.settle_resolved (fun answer ha => ?_) []
  obtain ⟨r', hr', rfl⟩ := List.mem_map.1 ha
  obtain ⟨o, ho, hu⟩ := Repository.barren_iff.1 (hb r' hr')
  exact ⟨o, by rw [Installation.answer, hd]; exact ho, hu⟩

end Installation

/-- Repositories in the memory of an environment, each with a site of its own. -/
def Environment.installation (layouts : List (String × Layout)) (sites : List Site)
    (h : (layouts.map (·.1)).Nodup) : Installation Environment where
  repositories := layouts.zipIdx.map fun entry =>
    ⟨entry.1.1, Format.toml entry.1.2, memoryStore, siteTransport entry.2 none, {}⟩
  view := view sites
  origin := { sites := sites }
  origin_empty := ⟨⟨rfl, rfl⟩, fun _ => rfl⟩
  shows r hr := by
    obtain ⟨entry, _, rfl⟩ := List.mem_map.1 hr
    exact memoryStore_shows sites
  lawful r hr := by
    obtain ⟨entry, _, rfl⟩ := List.mem_map.1 hr
    exact Format.toml_lawful entry.1.2
  static r hr := by
    obtain ⟨entry, _, rfl⟩ := List.mem_map.1 hr
    constructor <;> intro e e' he he' <;> simp only [siteTransport, Site.transport, he.2, he'.2]
  names_nodup := by
    have hnames : (layouts.zipIdx.map fun entry => entry.1.1) = layouts.map (·.1) := by
      have hcomp : (fun entry : (String × Layout) × Nat => entry.1.1) =
        (fun entry => entry.1) ∘ Prod.fst := rfl
      rw [hcomp, ← List.map_map, List.zipIdx_map_fst]
    rw [List.map_map]
    exact hnames ▸ h

end ArtifactResolver
