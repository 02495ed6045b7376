import ArtifactResolver.Proofs.Transparency

/-!
# Replaying a session offline

What an online session has resolved is in the cache, under the keys that an offline session reads,
and no entry stands in front of another that is different. So the reports of an online session can
be had again offline: with the same metadata, the same artifacts and the same files, at whatever
time later, and without a call to any site.
-/

namespace ArtifactResolver

variable {σ α β γ : Type}

/-! ## Actions that always end in the same way -/

/-- The action ends with this value, calls no site and leaves the environment as it is. -/
def Action.Gives (a : Action σ α) (v : α) : Prop :=
  ∀ w, ∃ w', a w = .ok v w' ∧ w'.calls = w.calls ∧ w'.env = w.env

namespace Action.Gives

theorem pure (v : α) : Gives (Pure.pure v : Action σ α) v := fun w => ⟨w, rfl, rfl, rfl⟩

theorem log (level : Level) (text : String) : Gives (Action.log level text : Action σ Unit) () :=
  fun _ => ⟨_, rfl, rfl, rfl⟩

theorem bind {a : Action σ α} {f : α → Action σ β} {v : α} {u : β} (ha : Gives a v)
    (hf : Gives (f v) u) : Gives (a >>= f) u := by
  intro w
  obtain ⟨w₁, h₁, hc₁, he₁⟩ := ha w
  obtain ⟨w₂, h₂, hc₂, he₂⟩ := hf w₁
  exact ⟨w₂, by rw [bind_apply, h₁]; exact h₂, hc₂.trans hc₁, he₂.trans he₁⟩

end Action.Gives

/-! ## What a report has values for -/

theorem Outcome.value?_eq_none {o : Outcome α} (h : o.isResolved = false) : o.value? = none := by
  rcases o with ⟨_ | value | failure | _⟩
  · rfl
  · cases h
  · rfl
  · rfl

/-- Of outcomes with the same value, both are that value or none of them is one. -/
theorem Outcome.cases_of_value_eq {o o' : Outcome α} (h : o'.value? = o.value?) :
    (∃ value, o = .resolved value ∧ o' = .resolved value) ∨
      o.isResolved = false ∧ o'.isResolved = false := by
  rcases o.resolved_or_unresolved with ⟨value, rfl⟩ | ho <;>
    rcases o'.resolved_or_unresolved with ⟨value', rfl⟩ | ho'
  · exact Or.inl ⟨value, rfl, congrArg _ (Option.some.inj h)⟩
  · rw [value?_eq_none ho'] at h
    cases h
  · rw [value?_eq_none ho] at h
    cases h
  · exact Or.inr ⟨ho, ho'⟩

/-- An entry of a report with the value that it has, if it has one. -/
def Report.known (entry : β × Outcome α) : β × Option α := (entry.1, entry.2.value?)

/-- The reports have the same values for the same things: the metadata, the artifacts of every
category, and the file of every download. -/
structure Report.SameValues (r r' : Report) : Prop where
  metadata : r'.metadata.value? = r.metadata.value?
  artifacts : r'.artifacts.map known = r.artifacts.map known
  downloads : r'.downloads.map known = r.downloads.map known

namespace Chain

theorem selected_gives {o : Outcome (List Version)} (ho : o.isResolved = false) (c : Chain σ)
    (s : Selector) : ∃ o', (c.selected s o).Gives o' ∧ o'.value? = none := by
  rcases o with ⟨_ | versions | failure | _⟩
  · exact ⟨_, .pure _, rfl⟩
  · cases ho
  · exact ⟨_, .pure _, rfl⟩
  · exact ⟨_, .pure _, rfl⟩

/-- What becomes of the metadata that was found for a request. -/
def reported (c : Chain σ) (request : ModuleRequest) (s : Selector) (metadata : Outcome Metadata) :
    Action σ Report :=
  match metadata.resolution with
  | some (.resolved m) => do
    let parts ← request.categories.mapM (c.resolveCategory m request.download)
    return ⟨s, metadata, Ascending.ofEntries (parts.map (·.1)), parts.flatMap (·.2)⟩
  | some .missing => do
    Action.log .warn s!"{s.display} was not found in any repository"
    return { selector := s, metadata := metadata }
  | _ => return { selector := s, metadata := metadata }

theorem report_eq (c : Chain σ) (request : ModuleRequest) (s : Selector) :
    c.report request s = (do
      Action.log .info s!"Resolving {s.display}"
      c.reported request s (← c.select s)) := rfl

theorem reported_gives {metadata : Outcome Metadata} (h : metadata.isResolved = false)
    (c : Chain σ) (request : ModuleRequest) (s : Selector) :
    (c.reported request s metadata).Gives { selector := s, metadata := metadata } := by
  rcases metadata with ⟨_ | m | failure | _⟩
  · exact .pure _
  · cases h
  · exact .pure _
  · exact (Action.Gives.log _ _).bind (.pure _)

end Chain

namespace Installation

/-! ## Doing again offline -/

/-- Whatever the first action ends with, the second one ends with something that is related to it,
at any time later, without a call to a site and without a change. -/
structure Replays (I : Installation σ) (first second : Action σ α) (R : α → α → Prop) : Prop where
  grown : ∀ {w}, I.Consistent w.env → I.Grown w.env (first.ends w).2
  again : ∀ {w w' v}, I.Consistent w.env → first w = .ok v w' → ∀ {w₀}, I.Grown w'.env w₀.env →
    ∃ v' w₁, second w₀ = .ok v' w₁ ∧ w₁.calls = w₀.calls ∧ w₁.env = w₀.env ∧ R v v'

namespace Replays

variable {I : Installation σ} {R : α → α → Prop} {S : β → β → Prop} {a b : Action σ α}

theorem grown_of_ok (h : I.Replays a b R) {w w' : World σ} {v : α} (hc : I.Consistent w.env)
    (ha : a w = .ok v w') : I.Grown w.env w'.env := by
  have hg := h.grown hc
  rwa [Action.ends_of_ok ha] at hg

theorem related (h : I.Replays a b R) {w w' : World σ} {v : α} (hc : I.Consistent w.env)
    (ha : a w = .ok v w') : ∃ v', R v v' := by
  obtain ⟨v', _, _, _, _, hv⟩ := h.again hc ha (.refl (h.grown_of_ok hc ha).consistent)
  exact ⟨v', hv⟩

theorem of_gives {v v' : α} (ha : a.Gives v) (hb : b.Gives v') (h : R v v') :
    I.Replays a b R where
  grown {w} hc := by
    obtain ⟨w', ha, _, he⟩ := ha w
    rw [Action.ends_of_ok ha, he]
    exact .refl hc
  again {w w' u} hc hu {w₀} _ := by
    obtain ⟨w'', hv, _⟩ := ha w
    obtain ⟨rfl, rfl⟩ := EStateM.Result.ok.inj (hu.symm.trans hv)
    obtain ⟨w₁, hb, hcalls, he⟩ := hb w₀
    exact ⟨v', w₁, hb, hcalls, he, h⟩

theorem mono {R' : α → α → Prop} (h : I.Replays a b R) (hR : ∀ v v', R v v' → R' v v') :
    I.Replays a b R' where
  grown := h.grown
  again hc ha _ hg := by
    obtain ⟨v', w₁, hb, hcalls, he, hv⟩ := h.again hc ha hg
    exact ⟨v', w₁, hb, hcalls, he, hR _ _ hv⟩

theorem bind {f g : α → Action σ β} (h : I.Replays a b R)
    (hf : ∀ v v', R v v' → I.Replays (f v) (g v') S) : I.Replays (a >>= f) (b >>= g) S where
  grown {w} hc := by
    rw [Action.ends, Action.bind_apply]
    have hg := h.grown hc
    cases ha : a w with
    | error p w' => rwa [Action.ends_of_error ha] at hg
    | ok v w' =>
      rw [Action.ends_of_ok ha] at hg
      obtain ⟨v', hv⟩ := h.related hc ha
      exact hg.trans ((hf v v' hv).grown hg.consistent)
  again {w w' u} hc hu {w₀} hw₀ := by
    rw [Action.bind_apply] at hu
    cases ha : a w with
    | error p w' =>
      rw [ha] at hu
      cases hu
    | ok v w₁ =>
      rw [ha] at hu
      have hg := h.grown_of_ok hc ha
      obtain ⟨v₁, hv₁⟩ := h.related hc ha
      have hg' := (hf v v₁ hv₁).grown_of_ok hg.consistent hu
      -- the second action runs where all of the first sequence is over, not only its first part
      obtain ⟨v', w₂, hb, hcalls, he, hv⟩ := h.again hc ha (hg'.trans hw₀)
      obtain ⟨u', w₃, hg₃, hcalls₃, he₃, hu'⟩ :=
        (hf v v' hv).again hg.consistent hu (he.symm ▸ hw₀ : I.Grown w'.env w₂.env)
      refine ⟨u', w₃, ?_, hcalls₃.trans hcalls, he₃.trans he, hu'⟩
      rw [Action.bind_apply, hb]
      exact hg₃

/-- Doing things one after the other gives what is the same of each of them. -/
theorem mapM {f g : α → Action σ β} (seen : β → γ) {l : List α}
    (h : ∀ x ∈ l, I.Replays (f x) (g x) fun v v' => seen v' = seen v) :
    I.Replays (l.mapM f) (l.mapM g) fun vs vs' => vs'.map seen = vs.map seen := by
  induction l with
  | nil => exact of_gives (.pure []) (.pure []) rfl
  | cons x rest ih =>
    rw [List.mapM_cons, List.mapM_cons]
    refine (h x List.mem_cons_self).bind fun v v' hv => ?_
    refine (ih fun y hy => h y (List.mem_cons_of_mem _ hy)).bind fun vs vs' hvs => ?_
    refine of_gives (.pure _) (.pure _) ?_
    rw [List.map_cons, List.map_cons, hv, hvs]

end Replays

section Replaying

variable {I : Installation σ} {p p' : Policy} (hon : p.offline = false) (hoff : p'.offline = true)
include hon hoff

/-- An online lookup is done again by an offline one. -/
theorem lookup_replays {q : Query α} (hq : I.Admits q) :
    I.Replays ((p.chain I.repositories).lookup q) ((p'.chain I.repositories).lookup q)
      fun o o' => o'.value? = o.value? ∧
        ∀ value, o = .resolved value → I.uncached q = .ok (.resolved value) where
  grown {w} hc := by
    obtain ⟨e', hends, hg, _⟩ := lookup_online hc hq hon
    rw [hends]
    exact hg
  again {w w' o} hc ho {w₀} hg := by
    obtain ⟨e', hends, _, hk⟩ := lookup_online hc hq hon
    rw [Action.ends_of_ok ho, Prod.mk.injEq] at hends
    obtain ⟨hu, rfl⟩ := hends
    obtain ⟨o', ho', hsound, hcomplete⟩ := lookup_offline hg.consistent hq hoff
    refine ⟨o', w₀, ho', rfl, rfl, ?_, fun value hv => by rw [← hu, hv]⟩
    -- a value was kept, and offline nothing has a value that it has not without a cache
    rcases o.resolved_or_unresolved with ⟨value, rfl⟩ | hunresolved
    · rw [hcomplete ((hk value hu.symm).of_grown hg) value hu.symm]
    · rw [Outcome.value?_eq_none hunresolved]
      rcases o'.resolved_or_unresolved with ⟨value, rfl⟩ | hunresolved'
      · rw [Except.ok.inj (hu.trans (hsound value rfl))] at hunresolved
        cases hunresolved
      · exact Outcome.value?_eq_none hunresolved'

theorem metadata_replays (c : Coordinate) :
    I.Replays ((p.chain I.repositories).metadata c) ((p'.chain I.repositories).metadata c)
      fun o o' => o'.value? = o.value? ∧
        ∀ m, o = .resolved m → ∀ category, I.Admits (.artifacts m category) := by
  refine (lookup_replays (q := .metadata c) hon hoff trivial).mono fun o o' ⟨hv, hu⟩ => ⟨hv, ?_⟩
  intro m hm category
  exact admits_of_uncached (hu m hm) category

theorem select_replays (s : Selector) :
    I.Replays ((p.chain I.repositories).select s) ((p'.chain I.repositories).select s)
      fun o o' => o'.value? = o.value? ∧
        ∀ m, o = .resolved m → ∀ category, I.Admits (.artifacts m category) := by
  have hnone : ∀ o o' : Outcome Metadata, o.value? = none → o'.value? = none →
      o'.value? = o.value? ∧
        ∀ m, o = .resolved m → ∀ category, I.Admits (.artifacts m category) := by
    intro o o' ho ho'
    refine ⟨ho'.trans ho.symm, ?_⟩
    rintro m rfl
    cases ho
  cases hs : s.toCoordinate? with
  | some c =>
    unfold Chain.select
    rw [hs]
    exact metadata_replays hon hoff c
  | none =>
    rw [Chain.select_of_dynamic hs, Chain.select_of_dynamic hs]
    refine (lookup_replays (q := .versions s) hon hoff trivial).bind fun o o' ⟨hv, _⟩ => ?_
    rcases Outcome.cases_of_value_eq hv with ⟨versions, rfl, rfl⟩ | ⟨ho, ho'⟩
    · cases hselect : s.constraint.select versions with
      | none =>
        simp only [Chain.selected, Outcome.resolved, hselect]
        exact .of_gives (.pure _) (.pure _) (hnone _ _ rfl rfl)
      | some version =>
        simp only [Chain.selected, Outcome.resolved, hselect]
        exact metadata_replays hon hoff (s.withVersion version)
    · obtain ⟨u, hu, hn⟩ := Chain.selected_gives ho (p.chain I.repositories) s
      obtain ⟨u', hu', hn'⟩ := Chain.selected_gives ho' (p'.chain I.repositories) s
      exact .of_gives hu hu' (hnone _ _ hn hn')

theorem download_replays (artifacts : List Artifact) :
    I.Replays ((p.chain I.repositories).download artifacts)
      ((p'.chain I.repositories).download artifacts)
      fun downloads downloads' => downloads'.map Report.known = downloads.map Report.known := by
  refine .mapM Report.known fun a _ => ?_
  refine (lookup_replays (q := .artifact a) hon hoff trivial).bind fun o o' ⟨hv, _⟩ => ?_
  exact .of_gives (.pure _) (.pure _) (congrArg (a, ·) hv)

theorem resolveCategory_replays {m : Metadata} {category : Category}
    (hm : I.Admits (.artifacts m category)) (download : Bool) :
    I.Replays ((p.chain I.repositories).resolveCategory m download category)
      ((p'.chain I.repositories).resolveCategory m download category)
      fun part part' => (Report.known part'.1, part'.2.map Report.known) =
        (Report.known part.1, part.2.map Report.known) := by
  refine (lookup_replays (q := .artifacts m category) hon hoff hm).bind fun o o' ⟨hv, _⟩ => ?_
  dsimp only
  rw [hv]
  refine (download_replays hon hoff _).bind fun downloads downloads' hd => ?_
  refine .of_gives (.pure _) (.pure _) ?_
  rw [hd, Report.known, Report.known, hv]

/-- An online report is done again by an offline one. -/
theorem report_replays (request : ModuleRequest) (s : Selector) :
    I.Replays ((p.chain I.repositories).report request s)
      ((p'.chain I.repositories).report request s) Report.SameValues := by
  rw [Chain.report_eq, Chain.report_eq]
  refine (Replays.of_gives (R := Eq) (.log _ _) (.log _ _) rfl).bind fun _ _ _ => ?_
  refine (select_replays hon hoff s).bind fun metadata metadata' ⟨hv, hm⟩ => ?_
  rcases Outcome.cases_of_value_eq hv with ⟨m, rfl, rfl⟩ | ⟨hu, hu'⟩
  · refine (Replays.mapM (fun part => (Report.known part.1, part.2.map Report.known))
      fun category _ => resolveCategory_replays hon hoff (hm m rfl category) _).bind
        fun parts parts' hparts => ?_
    refine .of_gives (.pure _) (.pure _) ⟨rfl, ?_, ?_⟩
    · have hentries : (parts'.map (·.1)).map Report.known = (parts.map (·.1)).map Report.known := by
        have := congrArg (List.map Prod.fst) hparts
        simpa only [List.map_map, Function.comp_def] using this
      have hof := Ascending.map_ofEntries (α := Category) (β := Outcome (List Artifact))
        Outcome.value?
      exact (hof _).trans ((congrArg Ascending.ofEntries hentries).trans (hof _).symm)
    · have := congrArg (List.flatMap Prod.snd) hparts
      simpa only [List.flatMap_map, List.map_flatMap] using this
  · exact .of_gives (Chain.reported_gives hu _ _ _) (Chain.reported_gives hu' _ _ _) ⟨hv, rfl, rfl⟩

end Replaying

theorem report_grown {I : Installation σ} {p : Policy} (hon : p.offline = false)
    (request : ModuleRequest) (s : Selector) {w : World σ} (hc : I.Consistent w.env) :
    I.Grown w.env (((p.chain I.repositories).report request s).ends w).2 := by
  have hoff : ({ offline := true } : Policy).offline = true := rfl
  exact (report_replays hon hoff request s).grown hc

/-! ## Sessions -/

/-- What was asked for in a session, and what became of it. -/
structure Reported where
  request : ModuleRequest
  selector : Selector
  /-- The report, or the panic of a site that has no limit. -/
  result : Except Panic Report

/-- The reports of a session, the last one first, and the world that they leave. A session starts
with an empty cache; before every report time passes, and each has a policy of its own, which is not
offline. -/
inductive Reports (I : Installation σ) : List Reported → World σ → Prop where
  | start {w : World σ} (empty : I.view.Empty w.env) : Reports I [] w
  | report {reports : List Reported} {w w' : World σ} {e : σ} {p : Policy}
      {request : ModuleRequest} {s : Selector} {result : Except Panic Report}
      (before : Reports I reports w) (later : I.view.Later w.env e) (online : p.offline = false)
      (ended : ((p.chain I.repositories).report request s).finish { w with env := e } =
        (result, w')) :
      Reports I (⟨request, s, result⟩ :: reports) w'

variable {I : Installation σ} {reports : List Reported} {w : World σ}

/-- Throughout a session the cache is consistent, and as long as it does not lose entries, every
report can be had again offline. -/
theorem Reports.invariant (h : I.Reports reports w) :
    I.Consistent w.env ∧ ∀ reported ∈ reports, ∀ r, reported.result = .ok r →
      ∀ {p : Policy}, p.offline = true → ∀ {w₀ : World σ}, I.Grown w.env w₀.env →
        ∃ r' w₁, (p.chain I.repositories).report reported.request reported.selector w₀ = .ok r' w₁ ∧
          w₁.calls = w₀.calls ∧ w₁.env = w₀.env ∧ r.SameValues r' := by
  induction h with
  | start empty => exact ⟨.of_empty empty, by simp⟩
  | @report reports w w' e p request s result before later online ended ih =>
    obtain ⟨hc, hreports⟩ := ih
    have hg : I.Grown w.env e := .of_later hc later
    have hends := Action.ends_of_finish ended
    have hg' : I.Grown e w'.env := by
      have hreport := report_grown online request s (w := { w with env := e }) hg.consistent
      rwa [hends] at hreport
    refine ⟨hg'.consistent, fun reported hr r hresult p' hp' w₀ hw₀ => ?_⟩
    rcases List.mem_cons.1 hr with rfl | hr
    · cases hresult
      obtain ⟨w₁, hok, he⟩ := Action.ends_eq_ok_iff.1 hends
      exact (report_replays online hp' request s).again hg.consistent hok (he.symm ▸ hw₀)
    · exact hreports reported hr r hresult hp' ((hg.trans hg').trans hw₀)

/-- At whatever time after a session, every report of it can be had again offline, with the same
values and without a call to a site. -/
theorem offline_replay (h : I.Reports reports w) {reported : Reported} (hr : reported ∈ reports)
    {r : Report} (hresult : reported.result = .ok r) {p : Policy} (hp : p.offline = true)
    {w₀ : World σ} (hlater : I.view.Later w.env w₀.env) :
    ∃ r' w₁, (p.chain I.repositories).report reported.request reported.selector w₀ = .ok r' w₁ ∧
      w₁.calls = w₀.calls ∧ w₁.env = w₀.env ∧ r.SameValues r' := by
  obtain ⟨hc, hreports⟩ := h.invariant
  have hg : I.Grown w.env w₀.env := .of_later hc hlater
  exact hreports reported hr r hresult hp hg

end Installation

namespace Environment

theorem sample_report :
    (((({} : Policy).chain sample.repositories).report { sources := true, download := true }
      ⟨"g", "m", .exact "1"⟩).finish sampleStart).1 =
        .ok ⟨⟨"g", "m", .exact "1"⟩, .resolved sampleMetadata,
          [(.configuration "default", .resolved [sampleArtifact]), (.sources, .resolved [])],
          [(sampleArtifact, .resolved
            ⟨sampleArtifact, "/cache/mirror/artifacts/g/m/1/jar/m/_/m-1.jar"⟩)]⟩ := by
  cbv

/-- A report with the sources and the file of a module, and the same a year later and offline. -/
theorem sample_replayed :
    let request : ModuleRequest := { sources := true, download := true }
    let selector : Selector := ⟨"g", "m", .exact "1"⟩
    let first := ((({} : Policy).chain sample.repositories).report request selector).finish
      sampleStart
    let later := { first.2 with env := first.2.env.after 31536000000, calls := [] }
    ∃ r r' w₁, first.1 = .ok r ∧ r.metadata = .resolved sampleMetadata ∧ r.isSuccess = true ∧
      (({ offline := true } : Policy).chain sample.repositories).report request selector later =
        .ok r' w₁ ∧
      w₁.calls = later.calls ∧ w₁.env = later.env ∧ r.SameValues r' := by
  intro request selector first later
  have hempty : sample.view.Empty sampleStart.env := sample.origin_empty
  have hreports : sample.Reports [⟨request, selector, first.1⟩] first.2 :=
    .report (.start hempty) ⟨hempty.occurs, Nat.le_refl _, fun _ => rfl⟩ rfl rfl
  have hlater : sample.view.Later first.2.env later.env :=
    later_after hreports.invariant.1.occurs _
  have hoffline : ({ offline := true } : Policy).offline = true := rfl
  obtain ⟨r', w₁, hagain⟩ :=
    Installation.offline_replay hreports List.mem_cons_self sample_report hoffline hlater
  exact ⟨_, r', w₁, sample_report, rfl, rfl, hagain⟩

end Environment
end ArtifactResolver
