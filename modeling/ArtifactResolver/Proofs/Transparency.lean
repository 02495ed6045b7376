import Mathlib
import ArtifactResolver.Proofs.Chain.Cached

/-!
# The cache cannot be seen

In a session on an installation, every lookup ends as it would against an empty cache: whatever was
looked up before, however long ago, and however much trust in its entries there is. The invariant
that a whole session keeps is that the cache is consistent, and that every metadata that the chain
resolved is the one that it resolves without a cache.
-/

namespace ArtifactResolver

variable {σ α : Type}

/-- A lookup of a session, the policy that it was made under, and how it ended. -/
structure Event where
  {α : Type}
  /-- The policy of the lookup. -/
  policy : Policy
  /-- What was looked up. -/
  query : Query α
  /-- The outcome, or the panic of a site that has no limit. -/
  result : Except Panic (Outcome α)

/-- The lookup resolved this metadata. -/
def Event.Resolved (m : Metadata) : Event → Prop
  | ⟨_, .metadata _, result⟩ => result = .ok (.resolved m)
  | _ => False

/-- What can be looked up after the given lookups: anything, but companions only with metadata that
one of them resolved. -/
def Query.Follows (events : List Event) : Query α → Prop
  | .artifacts m _ => ∃ event ∈ events, event.Resolved m
  | _ => True

namespace Installation

/-- The lookups of a session, the last one first, and the world that they leave. A session starts
with an empty cache; before every lookup time passes, and each has a policy of its own, which is not
offline. -/
inductive Session (I : Installation σ) : List Event → World σ → Prop where
  | start {w : World σ} (empty : I.view.Empty w.env) : Session I [] w
  | lookup {events : List Event} {w w' : World σ} {e : σ} {p : Policy} {α : Type} {q : Query α}
      {result : Except Panic (Outcome α)} (before : Session I events w)
      (later : I.view.Later w.env e) (online : p.offline = false) (follows : q.Follows events)
      (ended : ((p.chain I.repositories).lookup q).finish { w with env := e } = (result, w')) :
      Session I (⟨p, q, result⟩ :: events) w'

variable {I : Installation σ} {events : List Event} {w : World σ}

theorem admits_of_follows {q : Query α} (h : q.Follows events)
    (hevents : ∀ event ∈ events, event.result = I.uncached event.query) : I.Admits q := by
  cases q with
  | artifacts m category =>
    obtain ⟨⟨p, q, result⟩, hevent, hm⟩ := h
    have hresult := hevents _ hevent
    cases q with
    | metadata c =>
      have hm : result = .ok (.resolved m) := hm
      exact admits_of_uncached (hresult.symm.trans hm) category
    | _ => cases hm
  | _ => trivial

/-- Throughout a session the cache is consistent, and lookups end as they do without a cache. -/
theorem Session.invariant (h : I.Session events w) :
    I.Consistent w.env ∧
      ∀ event ∈ events, I.Admits event.query ∧ event.result = I.uncached event.query := by
  induction h with
  | start empty => exact ⟨.of_empty empty, by simp⟩
  | @lookup events w w' e p α q result before later online follows ended ih =>
    obtain ⟨hc, hevents⟩ := ih
    have hg : I.Grown w.env e := .of_later hc later
    have hq : I.Admits q := admits_of_follows follows fun event h => (hevents event h).2
    obtain ⟨e', hends, hg', _⟩ := lookup_online (w := { w with env := e }) hg.consistent hq online
    rw [Action.ends_of_finish ended, Prod.mk.injEq] at hends
    obtain ⟨hresult, rfl⟩ := hends
    refine ⟨hg'.consistent, fun event hevent => ?_⟩
    rcases List.mem_cons.1 hevent with rfl | hevent
    · exact ⟨hq, hresult⟩
    · exact hevents event hevent

/-- Every lookup of a session ends with what the sites answer, one after the other, and so does the
same lookup against an empty cache. So lookups of the same end in the same way, wherever they stand
in which session. -/
theorem cache_transparent (h : I.Session events w) :
    (∀ event ∈ events, event.result = I.uncached event.query ∧
      ∀ (p : Policy) (w₀ : World σ), p.offline = false → I.view.Empty w₀.env →
        (((p.chain I.repositories).lookup event.query).finish w₀).1 = event.result) ∧
    ∀ {events' : List Event} {w' : World σ}, I.Session events' w' →
      ∀ {α : Type} {q : Query α} {p p' : Policy} {result result' : Except Panic (Outcome α)},
        ⟨p, q, result⟩ ∈ events → ⟨p', q, result'⟩ ∈ events' → result = result' := by
  obtain ⟨_, hevents⟩ := h.invariant
  refine ⟨fun event hevent => ⟨(hevents event hevent).2, fun p w₀ hp hempty => ?_⟩, ?_⟩
  · obtain ⟨hq, hresult⟩ := hevents event hevent
    obtain ⟨e', hends, _⟩ := lookup_online (.of_empty hempty) hq hp
    rw [hresult, Action.finish_fst, hends]
  · intro events' w' h' α q p p' result result' hmem hmem'
    obtain ⟨_, hevents'⟩ := h'.invariant
    exact (hevents _ hmem).2.trans (hevents' _ hmem').2.symm

end Installation

/-! ## An installation of two repositories -/

namespace Environment

/-- A module version. -/
def sampleModule : Coordinate := ⟨"g", "m", "1"⟩

/-- The artifact of a module version that says nothing of its artifacts. -/
def sampleArtifact : Artifact := ⟨sampleModule, "m", "jar", "jar", none⟩

/-- The metadata of a module version that says nothing but its name. -/
def sampleMetadata : Metadata where
  coordinate := sampleModule
  configurations := [("default", { name := "default", artifacts := [sampleArtifact] })]

/-- Two repositories, of which only the second one has the module version. -/
def sample : Installation Environment :=
  installation [("central", {}), ("mirror", {})]
    [{}, { resources := [("g/m/1/m-1.jar", [1, 2, 3]), ("g/m/1/module-1.toml",
      Text.encode "[module]\ngroup = \"g\"\nname = \"m\"\nversion = \"1\"\n")] }]
    (by decide)

/-- A world in which nothing was looked up yet. -/
def sampleStart : World Environment := { env := sample.origin }

theorem sample_lookup :
    (((({} : Policy).chain sample.repositories).lookup (.metadata sampleModule)).finish
      sampleStart).1 = .ok (.resolved sampleMetadata) := by
  cbv

/-- Metadata is resolved, and resolved again two days later by a session that refreshes. -/
theorem sample_transparent :
    let q : Query Metadata := .metadata sampleModule
    let first := ((({} : Policy).chain sample.repositories).lookup q).finish sampleStart
    let second := ((({ refresh := true } : Policy).chain sample.repositories).lookup q).finish
      { first.2 with env := first.2.env.after 172800000 }
    first.1 = .ok (.resolved sampleMetadata) ∧
      sample.Session [⟨{ refresh := true }, q, second.1⟩, ⟨{}, q, first.1⟩] second.2 ∧
      second.1 = first.1 := by
  intro q first second
  have hempty : sample.view.Empty sampleStart.env := sample.origin_empty
  have hfirst : sample.Session [⟨{}, q, first.1⟩] first.2 :=
    .lookup (.start hempty) ⟨hempty.occurs, Nat.le_refl _, fun _ => rfl⟩ rfl trivial rfl
  have hsecond : sample.Session [⟨{ refresh := true }, q, second.1⟩, ⟨{}, q, first.1⟩] second.2 :=
    .lookup hfirst (later_after hfirst.invariant.1.occurs _) rfl trivial rfl
  refine ⟨sample_lookup, hsecond, ?_⟩
  exact (Installation.cache_transparent hsecond).2 hsecond List.mem_cons_self
    (List.mem_cons_of_mem _ List.mem_cons_self)

end Environment
end ArtifactResolver
