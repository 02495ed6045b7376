import ArtifactResolver.Proofs.Inheritance
import ArtifactResolver.Proofs.Report.Talk
import ArtifactResolver.Proofs.Selection
import Mathlib.Logic.Function.Basic

/-!
# What a report covers

A report holds the answer to everything that its request wants, and nothing else is looked up for
it. A failure among the answers keeps nothing from being looked up that does not depend on it, and
it is found again among the failures of the report.
-/

namespace ArtifactResolver

open Function

variable {σ α β : Type}

/-- Something that there is to tell of a report that is being made: the answer to a lookup, or a
line that was added to the log. -/
inductive Heard : Type 1 where
  | answer {α : Type} (inquiry : Inquiry α) (o : Outcome α)
  | line (l : LogLine)

/-! ## The course of a conversation -/

namespace Talk

/-- With these answers, a conversation comes to this result. -/
inductive Comes : Talk β → List Heard → β → Prop where
  | done (b : β) : Comes (done b) [] b
  | ask {α : Type} {inquiry : Inquiry α} {next : Outcome α → Talk β} {o : Outcome α}
      {rest : List Heard} {b : β} (h : Comes (next o) rest b) :
      Comes (ask inquiry next) (.answer inquiry o :: rest) b
  | line {l : LogLine} {next : Talk β} {rest : List Heard} {b : β} (h : Comes next rest b) :
      Comes (line l next) (.line l :: rest) b

variable {heard : List Heard} {b : β}

theorem comes_pure_iff {b' : β} : (pure b : Talk β).Comes heard b' ↔ heard = [] ∧ b' = b := by
  constructor
  · intro h
    cases h
    exact ⟨rfl, rfl⟩
  · rintro ⟨rfl, rfl⟩
    exact .done b'

theorem Comes.of_inquiry {inquiry : Inquiry α} {o : Outcome α} (h : (of inquiry).Comes heard o) :
    heard = [.answer inquiry o] := by
  cases h with
  | ask h =>
    obtain ⟨rfl, rfl⟩ := comes_pure_iff.1 h
    rfl

theorem Comes.of_note {l : LogLine} {v : Unit} (h : (note l).Comes heard v) :
    heard = [.line l] := by
  cases h with
  | line h =>
    obtain ⟨rfl, _⟩ := comes_pure_iff.1 h
    rfl

/-- What goes on with another conversation comes to what that one comes to. -/
theorem Comes.of_bind {t : Talk α} {f : α → Talk β} (h : (t >>= f).Comes heard b) :
    ∃ first rest a, heard = first ++ rest ∧ t.Comes first a ∧ (f a).Comes rest b := by
  induction t generalizing heard with
  | done a => exact ⟨[], heard, a, rfl, .done a, h⟩
  | ask inquiry next ih =>
    cases h with
    | ask h =>
      obtain ⟨first, rest, a, rfl, ht, hf⟩ := ih _ h
      exact ⟨_ :: first, rest, a, rfl, .ask ht, hf⟩
  | line l next ih =>
    cases h with
    | line h =>
      obtain ⟨first, rest, a, rfl, ht, hf⟩ := ih h
      exact ⟨_ :: first, rest, a, rfl, .line ht, hf⟩

end Talk

/-! ## What is asked for a request -/

namespace ModuleRequest

/-- The categories that are wanted, in their order. -/
def ascending (request : ModuleRequest) : List Category :=
  .configuration request.configuration ::
    (if request.documentation then [.documentation] else []) ++
      if request.sources then [.sources] else []

variable {request : ModuleRequest} {m : Metadata} {heard : List Heard}

theorem comes_downloads {artifacts : List Artifact} {downloads : List (Artifact × Outcome Located)}
    (h : (talkDownloads artifacts).Comes heard downloads) :
    downloads.map (·.1) = artifacts ∧
      heard = downloads.map fun d => .answer (.artifact d.1) d.2 := by
  induction artifacts generalizing heard downloads with
  | nil =>
    obtain ⟨rfl, rfl⟩ := Talk.comes_pure_iff.1 h
    exact ⟨rfl, rfl⟩
  | cons a artifacts ih =>
    rw [talkDownloads, List.mapM_cons] at h
    obtain ⟨_, _, d, rfl, hd, hrest⟩ := h.of_bind
    obtain ⟨_, _, o, rfl, ho, hpair⟩ := hd.of_bind
    obtain ⟨_, _, downloads', rfl, hothers, hend⟩ := hrest.of_bind
    obtain rfl := ho.of_inquiry
    obtain ⟨rfl, rfl⟩ := Talk.comes_pure_iff.1 hpair
    obtain ⟨rfl, rfl⟩ := Talk.comes_pure_iff.1 hend
    obtain ⟨rfl, rfl⟩ := ih hothers
    exact ⟨rfl, by simp⟩

/-- What is heard for a category. -/
def heardFor (m : Metadata) (category : Category) (set : Outcome (List Artifact))
    (downloads : List (Artifact × Outcome Located)) : List Heard :=
  .answer (.artifacts m category) set :: downloads.map fun d => .answer (.artifact d.1) d.2

theorem comes_category {category : Category}
    {part : (Category × Outcome (List Artifact)) × List (Artifact × Outcome Located)}
    (h : (request.talkCategory m category).Comes heard part) : ∃ set downloads,
      part = ((category, set), downloads) ∧ downloads.map (·.1) = request.wanted set ∧
        heard = heardFor m category set downloads := by
  rw [talkCategory] at h
  obtain ⟨_, _, set, rfl, hset, hrest⟩ := h.of_bind
  obtain ⟨_, _, downloads, rfl, hd, hend⟩ := hrest.of_bind
  obtain ⟨rfl, rfl⟩ := Talk.comes_pure_iff.1 hend
  obtain ⟨hwanted, rfl⟩ := comes_downloads hd
  obtain rfl := hset.of_inquiry
  exact ⟨set, downloads, rfl, hwanted, by simp [heardFor]⟩

theorem comes_categories {categories : List Category} (hn : categories.Nodup)
    {parts : List ((Category × Outcome (List Artifact)) × List (Artifact × Outcome Located))}
    (h : (categories.mapM (request.talkCategory m)).Comes heard parts) :
    ∃ (sets : Category → Outcome (List Artifact))
      (downloads : Category → List (Artifact × Outcome Located)),
      parts = (categories.map fun c => ((c, sets c), downloads c)) ∧
      (∀ c ∈ categories, (downloads c).map (·.1) = request.wanted (sets c)) ∧
      heard = categories.flatMap fun c => heardFor m c (sets c) (downloads c) := by
  induction categories generalizing heard parts with
  | nil =>
    obtain ⟨rfl, rfl⟩ := Talk.comes_pure_iff.1 h
    exact ⟨fun _ => .unset, fun _ => [], rfl, fun c hc => absurd hc List.not_mem_nil, rfl⟩
  | cons category categories ih =>
    obtain ⟨hnew, hn⟩ := List.nodup_cons.1 hn
    rw [List.mapM_cons] at h
    obtain ⟨_, _, part, rfl, hpart, hrest⟩ := h.of_bind
    obtain ⟨_, _, parts', rfl, hothers, hend⟩ := hrest.of_bind
    obtain ⟨rfl, rfl⟩ := Talk.comes_pure_iff.1 hend
    obtain ⟨set, fetched, rfl, hwanted, rfl⟩ := comes_category hpart
    obtain ⟨sets, downloads, rfl, hdownloads, rfl⟩ := ih hn hothers
    -- the category does not come again, so what was heard of the others stays
    have hother : ∀ c ∈ categories, c ≠ category := fun c hc heq => hnew (heq ▸ hc)
    refine ⟨update sets category set, update downloads category fetched, ?_, ?_, ?_⟩
    · rw [List.map_cons, update_self, update_self]
      congr 1
      refine List.map_congr_left fun c hc => ?_
      rw [update_of_ne (hother c hc), update_of_ne (hother c hc)]
    · intro c hc
      rcases List.mem_cons.1 hc with rfl | hc
      · rwa [update_self, update_self]
      · rw [update_of_ne (hother c hc), update_of_ne (hother c hc)]
        exact hdownloads c hc
    · rw [List.flatMap_cons, update_self, update_self, List.append_nil]
      congr 1
      refine List.flatMap_congr fun c hc => ?_
      rw [update_of_ne (hother c hc), update_of_ne (hother c hc)]

theorem nodup_categories (request : ModuleRequest) : request.categories.Nodup := by
  unfold categories
  cases request.sources <;> cases request.documentation <;> simp

/-- A map with an entry for every wanted category has them in their order. -/
theorem ofEntries_categories (request : ModuleRequest) (sets : Category → β) :
    Ascending.ofEntries (request.categories.map fun c => (c, sets c)) =
      request.ascending.map fun c => (c, sets c) := by
  unfold categories ascending
  cases request.sources <;> cases request.documentation <;> rfl

end ModuleRequest

/-! ## What a report holds -/

/-- A report holds what was heard for a request, and this is all that was heard. -/
inductive Report.Covers (request : ModuleRequest) (s : Selector) : Report → List Heard → Prop where
  /-- The lookup of the module failed, or was left open. -/
  | unresolved {o : Outcome Metadata} (hr : o.isResolved = false) (hm : o.isMissing = false) :
      Covers request s ⟨s, o, [], []⟩
        [.line (ModuleRequest.resolving s), .answer (.select s) o]
  /-- There is no such module. -/
  | missing : Covers request s ⟨s, .missing, [], []⟩
      [.line (ModuleRequest.resolving s), .answer (.select s) .missing,
        .line (ModuleRequest.notFound s)]
  /-- The module was found, and these are the sets and the downloads of the wanted categories. -/
  | resolved {m : Metadata} {sets : Category → Outcome (List Artifact)}
      {downloads : Category → List (Artifact × Outcome Located)}
      (hd : ∀ c ∈ request.categories, (downloads c).map (·.1) = request.wanted (sets c)) :
      Covers request s
        ⟨s, .resolved m, request.ascending.map fun c => (c, sets c),
          request.categories.flatMap downloads⟩
        (.line (ModuleRequest.resolving s) :: .answer (.select s) (.resolved m) ::
          request.categories.flatMap fun c => ModuleRequest.heardFor m c (sets c) (downloads c))

theorem Report.Covers.selector_eq {request : ModuleRequest} {s : Selector} {r : Report}
    {heard : List Heard} (h : r.Covers request s heard) : r.selector = s := by
  cases h <;> rfl

/-- Every download is the answer to a lookup. -/
theorem Report.Covers.answer_of_download {request : ModuleRequest} {s : Selector} {r : Report}
    {heard : List Heard} (h : r.Covers request s heard) {d : Artifact × Outcome Located}
    (hd : d ∈ r.downloads) : .answer (.artifact d.1) d.2 ∈ heard := by
  cases h with
  | unresolved => cases hd
  | missing => cases hd
  | @resolved m sets downloads _ =>
    obtain ⟨c, hc, hmem⟩ := List.mem_flatMap.1 hd
    have hanswer : .answer (.artifact d.1) d.2 ∈
        ModuleRequest.heardFor m c (sets c) (downloads c) :=
      List.mem_cons_of_mem _ (List.mem_map.2 ⟨d, hmem, rfl⟩)
    exact List.mem_cons_of_mem _ (List.mem_cons_of_mem _ (List.mem_flatMap.2 ⟨c, hc, hanswer⟩))

theorem ModuleRequest.covers_of_comes {request : ModuleRequest} {s : Selector} {r : Report}
    {heard : List Heard} (h : (request.talk s).Comes heard r) : r.Covers request s heard := by
  rw [talk] at h
  obtain ⟨_, _, _, rfl, hline, hlookups⟩ := h.of_bind
  obtain ⟨_, _, o, rfl, hmetadata, hrest⟩ := hlookups.of_bind
  obtain rfl := hline.of_note
  obtain rfl := hmetadata.of_inquiry
  rcases o with ⟨_ | m | failure | _⟩
  · obtain ⟨rfl, rfl⟩ := Talk.comes_pure_iff.1 hrest
    exact .unresolved rfl rfl
  · obtain ⟨_, _, parts, rfl, hparts, hend⟩ := hrest.of_bind
    obtain ⟨rfl, rfl⟩ := Talk.comes_pure_iff.1 hend
    obtain ⟨sets, downloads, rfl, hdownloads, rfl⟩ :=
      comes_categories request.nodup_categories hparts
    simp only [List.map_map, Function.comp_def, request.ofEntries_categories sets,
      List.flatMap_map, List.append_nil]
    exact .resolved hdownloads
  · obtain ⟨rfl, rfl⟩ := Talk.comes_pure_iff.1 hrest
    exact .unresolved rfl rfl
  · obtain ⟨_, _, _, rfl, hnote, hend⟩ := hrest.of_bind
    obtain rfl := hnote.of_note
    obtain ⟨rfl, rfl⟩ := Talk.comes_pure_iff.1 hend
    exact .missing

/-! ## Asking a chain -/

/-- These are the answers of a chain to lookups that are made one after the other, each in the world
that the one before it left. -/
inductive Chain.Hears (c : Chain σ) : World σ → List Heard → World σ → Prop where
  | nil (w : World σ) : Hears c w [] w
  | answer {α : Type} {w w₁ w₂ : World σ} {inquiry : Inquiry α} {o : Outcome α}
      {rest : List Heard} (asked : c.reply inquiry w = .ok o w₁) (others : Hears c w₁ rest w₂) :
      Hears c w (.answer inquiry o :: rest) w₂
  | line {w w₂ : World σ} {l : LogLine} {rest : List Heard}
      (others : Hears c { w with log := w.log ++ [l] } rest w₂) : Hears c w (.line l :: rest) w₂

/-- A conversation with a chain comes to its result by the answers of the chain, or it is cut short
by a lookup that panics. -/
theorem Talk.run_cases (c : Chain σ) (t : Talk β) (w : World σ) :
    (∃ b w' heard, t.run c w = .ok b w' ∧ c.Hears w heard w' ∧ t.Comes heard b) ∨
      ∃ panic w' heard w₁, t.run c w = .error panic w' ∧ c.Hears w heard w₁ ∧
        ∃ (α : Type) (inquiry : Inquiry α), c.reply inquiry w₁ = .error panic w' := by
  induction t generalizing w with
  | done b => exact Or.inl ⟨b, w, [], rfl, .nil w, .done b⟩
  | @ask α inquiry next ih =>
    rw [run, Action.bind_apply]
    cases hasked : c.reply inquiry w with
    | error panic w' => exact Or.inr ⟨panic, w', [], w, rfl, .nil w, α, inquiry, hasked⟩
    | ok o w₁ =>
      rcases ih o w₁ with ⟨b, w', heard, hrun, hh, hc⟩ | ⟨panic, w', heard, w₂, hrun, hh, hp⟩
      · exact Or.inl ⟨b, w', _, hrun, .answer hasked hh, .ask hc⟩
      · exact Or.inr ⟨panic, w', _, w₂, hrun, .answer hasked hh, hp⟩
  | line l next ih =>
    rcases ih { w with log := w.log ++ [l] } with
      ⟨b, w', heard, hrun, hh, hc⟩ | ⟨panic, w', heard, w₂, hrun, hh, hp⟩
    · exact Or.inl ⟨b, w', _, hrun, .line hh, .line hc⟩
    · exact Or.inr ⟨panic, w', _, w₂, hrun, .line hh, hp⟩

theorem Chain.Hears.exists_reply {c : Chain σ} {w w' : World σ} {heard : List Heard}
    (h : c.Hears w heard w') {inquiry : Inquiry α} {o : Outcome α}
    (hmem : .answer inquiry o ∈ heard) : ∃ w₁ w₂, c.reply inquiry w₁ = .ok o w₂ := by
  induction h with
  | nil w => cases hmem
  | answer asked others ih =>
    cases hmem with
    | head => exact ⟨_, _, asked⟩
    | tail _ hmem => exact ih hmem
  | line others ih =>
    cases hmem with
    | tail _ hmem => exact ih hmem

/-! ## Sets in ascending order -/

/-- The half answers for a category with a set. -/
def Half.AnswersSets (h : Half σ) : Prop :=
  ∀ m category w artifacts w', h.artifacts m category w = .ok (.resolved artifacts) w' →
    Ascending.IsAscending artifacts

theorem ProbeRecord.isAscending_of_decode {module : Coordinate} {bytes : Bytes}
    {artifacts : List Artifact} (h : decode module bytes = .ok artifacts) :
    Ascending.IsAscending artifacts := by
  rw [decode] at h
  cases hread : Descriptor.readDocument (fun entries => do
      Toml.required "artifacts" (← (fields module).readAll entries)) bytes with
  | error e =>
    rw [hread] at h
    cases h
  | ok found =>
    rw [hread] at h
    obtain rfl := Except.ok.inj h
    exact Ascending.isAscending_ofList found

namespace Repository

theorem localHalf_answersSets (r : Repository σ) : r.localHalf.AnswersSets := by
  intro m category w artifacts w' h
  change r.localHalf.answer (.artifacts m category) w = _ at h
  cases hd : (Query.artifacts m category).declared? with
  | none =>
    obtain ⟨bytes, hread⟩ := read_of_localHalf hd h
    exact ProbeRecord.isAscending_of_decode hread
  | some o =>
    rw [r.localHalf_answer, localAnswer_of_declared hd] at h
    obtain rfl := (EStateM.Result.ok.inj h).1
    cases hfound : m.artifactsOf? category.configurationName with
    | none =>
      cases category <;> simp [Query.declared?, hfound, Outcome.resolved, Outcome.failed] at hd
    | some found =>
      have hartifacts : found = artifacts := by
        simpa [Query.declared?, hfound, Outcome.resolved] using hd
      exact hartifacts ▸ (Metadata.ascending_inherited hfound).1

theorem remoteHalf_answersSets (r : Repository σ) : r.remoteHalf.AnswersSets := by
  intro m category w artifacts w' h
  obtain ⟨bytes, hread⟩ := read_of_remoteHalf (q := .artifacts m category) h
  exact ProbeRecord.isAscending_of_decode hread

end Repository

theorem offlineHalf_answersSets : (offlineHalf : Half σ).AnswersSets := by
  intro m category w artifacts w' h
  cases (offlineHalf_answer (.artifacts m category) w).symm.trans h

/-- All halves of a session answer with sets. -/
theorem Policy.answersSets (p : Policy) (repositories : List (Repository σ)) :
    ∀ half ∈ (p.chain repositories).halves, half.2.AnswersSets := by
  intro half hmem
  cases hp : p.offline with
  | false =>
    rw [Chain.halves_chain_online hp, List.mem_append, List.mem_map, List.mem_map] at hmem
    obtain ⟨r, _, rfl⟩ | ⟨r, _, rfl⟩ := hmem
    · exact (r.under p).localHalf_answersSets
    · exact (r.under p).remoteHalf_answersSets
  | true =>
    rw [Chain.halves_chain_offline hp, List.mem_append, List.mem_map, List.mem_map] at hmem
    obtain ⟨r, _, rfl⟩ | ⟨r, _, rfl⟩ := hmem
    · exact (r.under p).localHalf_answersSets
    · exact offlineHalf_answersSets

/-! ## Failures -/

namespace Heard

/-- The failure of the lookup of the module, if this is one. -/
def moduleFailures : Heard → List Failure
  | answer (.select _) o => o.failure?.toList
  | answer (.artifacts _ _) _ => []
  | answer (.artifact _) _ => []
  | line _ => []

/-- The failure of the lookup of a category, if this is one. -/
def categoryFailures (category : Category) : Heard → List Failure
  | answer (.select _) _ => []
  | answer (.artifacts _ c) o => if c = category then o.failure?.toList else []
  | answer (.artifact _) _ => []
  | line _ => []

/-- The failure of a download, if this is one. -/
def downloadFailures : Heard → List Failure
  | answer (.select _) _ => []
  | answer (.artifacts _ _) _ => []
  | answer (.artifact _) o => o.failure?.toList
  | line _ => []

end Heard

namespace ModuleRequest

/-- The failures among what was heard: of the module, of the categories in their order, and of the
downloads as they were made. -/
def failuresAmong (request : ModuleRequest) (heard : List Heard) : List Failure :=
  heard.flatMap Heard.moduleFailures ++
    request.ascending.flatMap (fun c => heard.flatMap (Heard.categoryFailures c)) ++
    heard.flatMap Heard.downloadFailures

variable {m : Metadata} {category c : Category} {set : Outcome (List Artifact)}
  {downloads : List (Artifact × Outcome Located)}

theorem moduleFailures_heardFor :
    (heardFor m category set downloads).flatMap Heard.moduleFailures = [] := by
  rw [heardFor, List.flatMap_cons, List.flatMap_map]
  exact List.flatMap_eq_nil_iff.2 fun _ _ => rfl

theorem categoryFailures_heardFor :
    (heardFor m category set downloads).flatMap (Heard.categoryFailures c) =
      if category = c then set.failure?.toList else [] := by
  rw [heardFor, List.flatMap_cons, List.flatMap_map]
  have hdownloads : downloads.flatMap
      (fun d => Heard.categoryFailures c (.answer (.artifact d.1) d.2)) = [] :=
    List.flatMap_eq_nil_iff.2 fun _ _ => rfl
  rw [hdownloads, List.append_nil]
  rfl

theorem downloadFailures_heardFor :
    (heardFor m category set downloads).flatMap Heard.downloadFailures =
      downloads.flatMap fun d => d.2.failure?.toList := by
  rw [heardFor, List.flatMap_cons, List.flatMap_map]
  rfl

/-- Every category is asked for once, so its failure counts once. -/
theorem flatMap_failures (request : ModuleRequest) (sets : Category → Outcome (List Artifact)) :
    (request.ascending.flatMap fun k => request.categories.flatMap fun c =>
      if c = k then (sets c).failure?.toList else []) =
      request.ascending.flatMap fun c => (sets c).failure?.toList := by
  unfold categories ascending
  cases request.sources <;> cases request.documentation <;> simp

end ModuleRequest

theorem Outcome.failure?_eq_none_iff {o : Outcome α} : o.failure? = none ↔ o.isFailed = false := by
  rcases o with ⟨_ | _ | _ | _⟩ <;> simp [failure?, isFailed]

namespace Report

variable {request : ModuleRequest} {s : Selector} {r : Report} {heard : List Heard}

theorem failures_eq_flatMap (r : Report) : r.failures = r.metadata.failure?.toList ++
    r.artifacts.flatMap (fun entry => entry.2.failure?.toList) ++
    r.downloads.flatMap fun entry => entry.2.failure?.toList := by
  rw [failures, List.filterMap_eq_flatMap_toList, List.filterMap_eq_flatMap_toList]

/-- The failures of a report are those that were heard. -/
theorem Covers.failures_eq (h : r.Covers request s heard) :
    r.failures = request.failuresAmong heard := by
  rw [failures_eq_flatMap]
  cases h with
  | unresolved =>
    simp [ModuleRequest.failuresAmong, Heard.moduleFailures, Heard.categoryFailures,
      Heard.downloadFailures]
  | missing =>
    simp [ModuleRequest.failuresAmong, Heard.moduleFailures, Heard.categoryFailures,
      Heard.downloadFailures, Outcome.failure?, Outcome.missing]
  | @resolved m sets downloads hd =>
    have hnone : (request.categories.flatMap fun _ => ([] : List Failure)) = [] := by simp
    simp only [ModuleRequest.failuresAmong, List.flatMap_cons, List.flatMap_assoc,
      ModuleRequest.moduleFailures_heardFor, ModuleRequest.categoryFailures_heardFor,
      ModuleRequest.downloadFailures_heardFor, List.flatMap_map, Heard.moduleFailures,
      Heard.categoryFailures, Heard.downloadFailures, List.nil_append,
      request.flatMap_failures sets, hnone, List.append_nil]

theorem failures_of_isSuccess (h : r.isSuccess = true) : r.failures = [] := by
  have hresolved : ∀ {α : Type} {o : Outcome α}, o.isResolved = true → o.failure? = none := by
    intro α o ho
    obtain ⟨v, rfl⟩ := Outcome.isResolved_iff.1 ho
    rfl
  rw [isSuccess, Bool.and_eq_true, Bool.and_eq_true, List.all_eq_true, List.all_eq_true] at h
  obtain ⟨⟨hmetadata, hartifacts⟩, hdownloads⟩ := h
  rw [failures_eq_flatMap, hresolved hmetadata, Option.toList_none, List.nil_append,
    List.append_eq_nil_iff, List.flatMap_eq_nil_iff, List.flatMap_eq_nil_iff]
  refine ⟨fun entry he => ?_, fun entry he => ?_⟩
  · rw [Outcome.failure?_eq_none_iff.2 (Bool.not_eq_true _ ▸ by simpa using hartifacts entry he),
      Option.toList_none]
  · rw [hresolved (hdownloads entry he), Option.toList_none]

end Report

namespace Chain

/-- A set among the answers of a chain comes from one of its halves. -/
theorem Hears.isAscending {c : Chain σ} {w w' : World σ} {heard : List Heard}
    (h : c.Hears w heard w') (hc : ∀ half ∈ c.halves, half.2.AnswersSets) {m : Metadata}
    {category : Category} {set : Outcome (List Artifact)}
    (hmem : .answer (.artifacts m category) set ∈ heard) :
    Ascending.IsAscending (set.value?.getD []) := by
  obtain ⟨w₁, w₂, hreply⟩ := h.exists_reply hmem
  rcases set with ⟨_ | artifacts | _ | _⟩
  · exact List.Pairwise.nil
  · obtain ⟨half, hhalf, w₃, w₄, hanswer⟩ :=
      half_of_resolved (q := .artifacts m category) hreply
    exact hc half hhalf m category w₃ artifacts w₄ hanswer
  · exact List.Pairwise.nil
  · exact List.Pairwise.nil

/-- A chain reports on every request, unless one of its lookups panics. What it reports is what it
answered: without metadata it is asked for nothing else, and with it for every wanted category and,
if they are wanted, for the files of all artifacts that were found, in ascending order within each
category. All failures among the answers are in the report, and a success has none. -/
theorem report_covers_request (c : Chain σ) (request : ModuleRequest) (s : Selector)
    (w : World σ) :
    (∃ r w' heard, c.report request s w = .ok r w' ∧ c.Hears w heard w' ∧
      r.Covers request s heard ∧ r.failures = request.failuresAmong heard ∧
      (r.isSuccess = true → r.failures = []) ∧
      ((∀ half ∈ c.halves, half.2.AnswersSets) → ∀ m category set,
        .answer (.artifacts m category) set ∈ heard →
          Ascending.IsAscending (set.value?.getD []))) ∨
      ∃ panic w' heard w₁, c.report request s w = .error panic w' ∧ c.Hears w heard w₁ ∧
        ∃ (α : Type) (inquiry : Inquiry α), c.reply inquiry w₁ = .error panic w' := by
  have hcases := Talk.run_cases c (request.talk s) w
  rw [Talk.run_talk] at hcases
  rcases hcases with ⟨r, w', heard, hreport, hhears, hcomes⟩ | hpanic
  · have hcovers := ModuleRequest.covers_of_comes hcomes
    exact Or.inl ⟨r, w', heard, hreport, hhears, hcovers, hcovers.failures_eq,
      Report.failures_of_isSuccess, fun hc m category set => hhears.isAscending hc⟩
  · exact Or.inr hpanic

end Chain

/-! ## A file that is not there -/

namespace Environment

/-- A session with one repository. -/
def released : Chain Environment :=
  ({} : Policy).chain [⟨"a", Format.toml {}, memoryStore, siteTransport 0 none, {}⟩]

/-- Its site has a module that declares two artifacts, of which only the first one is there, and its
sources. -/
def releasedWorld : World Environment where
  env :=
    { sites := [{ resources := [("g/lib/1.0/module-1.0.toml", Text.encode (
          "[module]\ngroup = \"g\"\nname = \"lib\"\nversion = \"1.0\"\n\n" ++
          "[[configurations.default.artifacts]]\nname = \"z\"\n\n" ++
          "[[configurations.default.artifacts]]\nname = \"lib\"\n")),
        ("g/lib/1.0/lib-1.0.jar", [1]), ("g/lib/1.0/lib-1.0-sources.jar", [2])] }] }

/-- The module with its sources and all files. -/
def releasedRequest : ModuleRequest := { sources := true, download := true }

def releasedSelector : Selector := ⟨"g", "lib", .exact "1.0"⟩

/-- An artifact of that module. -/
def releasedArtifact (name kind : String) (classifier : Option String) : Artifact :=
  ⟨⟨"g", "lib", "1.0"⟩, name, kind, "jar", classifier⟩

def releasedReport : Except Panic Report × World Environment :=
  (released.report releasedRequest releasedSelector).finish releasedWorld

theorem releasedReport_downloads : releasedReport.1.toOption.map (fun r =>
    (r.artifacts.map (·.1), r.downloads.map fun d => (d.1, d.2.isResolved, d.2.isMissing))) =
    some ([.configuration "default", .sources],
      [(releasedArtifact "lib" "jar" none, true, false),
        (releasedArtifact "z" "jar" none, false, true),
        (releasedArtifact "lib" "source" (some "sources"), true, false)]) := by
  decide +kernel

theorem releasedReport_covered :
    ∃ r w' heard, released.report releasedRequest releasedSelector releasedWorld = .ok r w' ∧
      released.Hears releasedWorld heard w' ∧ r.Covers releasedRequest releasedSelector heard ∧
      r.failures = releasedRequest.failuresAmong heard ∧
      ∀ m category set, .answer (.artifacts m category) set ∈ heard →
        Ascending.IsAscending (set.value?.getD []) := by
  rcases Chain.report_covers_request released releasedRequest releasedSelector releasedWorld with
    ⟨r, w', heard, hreport, hhears, hcovers, hfailures, _, hsets⟩ | ⟨panic, w', _, _, hreport, _⟩
  · exact ⟨r, w', heard, hreport, hhears, hcovers, hfailures, hsets (Policy.answersSets _ _)⟩
  · have hdownloads := releasedReport_downloads
    rw [releasedReport, Action.finish, hreport] at hdownloads
    cases hdownloads

end Environment
end ArtifactResolver
