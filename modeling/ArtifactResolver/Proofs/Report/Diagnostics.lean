import ArtifactResolver.CommandLine.Run
import ArtifactResolver.Proofs.Pool.Order

/-!
# What the log says of reports

Once all reports are complete, the log says of each either that the module was resolved or what went
wrong. Only what failed counts as having gone wrong: if all that a request lacks are files that do
not exist, the log says nothing, and yet the request was no success.
-/

namespace ArtifactResolver

variable {σ α β : Type}

/-! ## The reports of a pool -/

/-- All items are attempted, and what an attempt comes to is the end of the work on an item. -/
theorem Pool.exists_attempts (work : α → Action σ β) (items : List α) (w : World σ) : ∃ ends w',
    items.mapM (attempt work) w = .ok ends w' ∧
      ∀ b, some b ∈ ends → ∃ a ∈ items, ∃ w₁ w₂, work a w₁ = .ok b w₂ := by
  induction items generalizing w with
  | nil => exact ⟨[], w, rfl, fun b hb => absurd hb List.not_mem_nil⟩
  | cons a items ih =>
    obtain ⟨ends, w', hmap, hends⟩ := ih ((work a).finish w).2
    refine ⟨((work a).finish w).1.toOption :: ends, w', ?_, fun b hb => ?_⟩
    · rw [List.mapM_cons, Action.bind_apply, attempt_apply]
      dsimp only
      rw [Action.bind_apply, hmap]
      rfl
    · rcases List.mem_cons.1 hb with heq | hb
      · rw [Action.finish] at heq
        cases ha : work a w with
        | ok v w₁ =>
          rw [ha] at heq
          obtain rfl := Option.some.inj heq
          exact ⟨a, List.mem_cons_self, w, w₁, ha⟩
        | error panic w₁ =>
          rw [ha] at heq
          cases heq
      · obtain ⟨a', ha', hwork⟩ := hends b hb
        exact ⟨a', List.mem_cons_of_mem _ ha', hwork⟩

/-! ## The log of a report -/

namespace Report

variable {r : Report}

/-- What the log says of a report. -/
inductive Logged (r : Report) : List LogLine → Prop where
  /-- The module was resolved, and nothing that was wanted is lacking. -/
  | resolved {m : Metadata} (hm : r.metadata = .resolved m) (hs : r.isSuccess = true) :
      Logged r [⟨.info, s!"Resolved {r.selector.display} to {m.coordinate.display}"⟩]
  /-- Something is lacking, and the log says what has gone wrong. -/
  | lacking {lines : List LogLine} (hs : r.isSuccess = false) (hne : lines ≠ [])
      (hlevel : ∀ line ∈ lines, line.level = .warn ∨ line.level = .error) : Logged r lines
  /-- The module was found and nothing failed, but a file that was wanted does not exist. -/
  | silent {m : Metadata} (hm : r.metadata = .resolved m) (hs : r.isSuccess = false)
      (hf : r.failures = []) (hd : ∃ d ∈ r.downloads, d.2 = .missing) : Logged r []

/-- Without a failure, what is lacking of a module that was found is a file. -/
theorem exists_missing {m : Metadata} (hm : r.metadata = .resolved m) (hs : r.isSuccess = false)
    (hf : r.failures = []) (hset : ∀ d ∈ r.downloads, d.2 ≠ .unset) :
    ∃ d ∈ r.downloads, d.2 = .missing := by
  rw [failures_eq_flatMap, List.append_eq_nil_iff, List.append_eq_nil_iff,
    List.flatMap_eq_nil_iff, List.flatMap_eq_nil_iff] at hf
  obtain ⟨⟨_, hartifacts⟩, hdownloads⟩ := hf
  have hunfailed : r.artifacts.all (fun entry => !entry.2.isFailed) = true := by
    refine List.all_eq_true.2 fun entry he => ?_
    have hnone := Option.toList_eq_nil_iff.1 (hartifacts entry he)
    rw [Outcome.failure?_eq_none_iff.1 hnone, Bool.not_false]
  rw [isSuccess, hm, hunfailed] at hs
  obtain ⟨d, hd, hunresolved⟩ := List.all_eq_false.1 hs
  refine ⟨d, hd, ?_⟩
  have hnone := Option.toList_eq_nil_iff.1 (hdownloads d hd)
  rcases ho : d.2 with ⟨_ | v | f | _⟩
  · exact absurd ho (hset d hd)
  · rw [ho] at hunresolved
    exact absurd rfl hunresolved
  · rw [ho] at hnone
    cases hnone
  · rfl

/-- What the log says of the failures of a report is that something is lacking. -/
theorem logged_failures (hs : r.isSuccess = false) (hf : r.failures ≠ []) :
    r.Logged (r.failures.map fun f => ⟨.error, f.message⟩) := by
  refine .lacking hs (fun h => hf (List.map_eq_nil_iff.1 h)) fun line hline => ?_
  obtain ⟨f, _, rfl⟩ := List.mem_map.1 hline
  exact Or.inr rfl

theorem logged_notFound (hs : r.isSuccess = false) (text : String) : r.Logged [⟨.warn, text⟩] := by
  refine .lacking hs (List.cons_ne_nil _ _) fun line hline => ?_
  rw [List.mem_singleton.1 hline]
  exact Or.inl rfl

theorem isSuccess_of_unresolved (h : r.metadata.isResolved = false) : r.isSuccess = false := by
  rw [isSuccess, h]
  rfl

theorem logged (hset : ∀ d ∈ r.downloads, d.2 ≠ .unset) : r.Logged r.logLines := by
  rw [logLines]
  rcases hm : r.metadata with ⟨_ | m | f | _⟩
  · exact logged_notFound (isSuccess_of_unresolved (hm ▸ rfl)) _
  · dsimp only
    split
    · next hs => exact .resolved hm hs
    · next hs =>
      have hs := Bool.not_eq_true _ ▸ hs
      by_cases hf : r.failures = []
      · rw [hf]
        exact .silent hm hs hf (exists_missing hm hs hf hset)
      · exact logged_failures hs hf
  · refine logged_failures (isSuccess_of_unresolved (hm ▸ rfl)) fun hf => ?_
    rw [failures_eq_flatMap, hm] at hf
    cases hf
  · exact logged_notFound (isSuccess_of_unresolved (hm ▸ rfl)) _

end Report

/-! ## The log of a run -/

/-- A file that is reported on was looked up, so something is known of it. -/
theorem Chain.download_ne_unset {c : Chain σ} {request : ModuleRequest} {s : Selector} {r : Report}
    {w w' : World σ} (h : c.report request s w = .ok r w') : ∀ d ∈ r.downloads, d.2 ≠ .unset := by
  intro d hd hunset
  have hcases := Talk.run_cases c (request.talk s) w
  rw [Talk.run_talk, h] at hcases
  rcases hcases with ⟨r', w₁, heard, hr, hhears, hcomes⟩ | ⟨_, _, _, _, hr, _⟩
  · obtain ⟨rfl, _⟩ := EStateM.Result.ok.inj hr
    obtain ⟨w₂, w₃, hreply⟩ :=
      hhears.exists_reply ((ModuleRequest.covers_of_comes hcomes).answer_of_download hd)
    rw [hunset] at hreply
    exact lookup_ne_unset c (.artifact d.1) w₂ w₃ hreply
  · cases hr

theorem log_lines (lines : List LogLine) (w : World σ) :
    (lines.forM fun line => Action.log line.level line.text) w =
      .ok () { w with log := w.log ++ lines } := by
  induction lines generalizing w with
  | nil =>
    rw [List.append_nil]
    rfl
  | cons line lines ih =>
    have hcons := ih { w with log := w.log ++ [line] }
    rw [List.append_assoc] at hcons
    exact hcons

theorem logReports_apply (reports : List Report) (w : World σ) : logReports reports w =
    .ok () { w with log := w.log ++ reports.flatMap Report.logLines } := by
  induction reports generalizing w with
  | nil =>
    rw [List.flatMap_nil, List.append_nil]
    rfl
  | cons r reports ih =>
    have hcons : logReports (r :: reports) = (do
      (r.logLines.forM fun line => Action.log line.level line.text : Action σ Unit)
      logReports reports) := rfl
    rw [hcons, Action.bind_apply, log_lines]
    dsimp only
    rw [ih, List.append_assoc]
    rfl

namespace CommandLine

open Files

/-- A run that resolves modules ends once there is a report on each. The log then says of each of
them that it was resolved or what went wrong, unless all that it lacks are files that do not exist.
-/
theorem runResolve_logs (p : Project) (hjobs : p.jobs ≤ Pool.maxWorkers) (request : ModuleRequest)
    (selectors : List Selector) (w : World Tree) :
    (∃ w', p.chain.reports p.jobs request selectors w = .ok none w' ∧
      runResolve p request selectors w = .ok .failure w') ∨
    ∃ reports w', p.chain.reports p.jobs request selectors w = .ok (some reports) w' ∧
      runResolve p request selectors w =
        .ok ⟨if reports.all (·.isSuccess) then 0 else 1, String.join (reports.map (·.describe))⟩
          { w' with log := w'.log ++ reports.flatMap Report.logLines } ∧
      ∀ r ∈ reports, r.Logged r.logLines := by
  obtain ⟨ends, w', hmap, hends⟩ := Pool.exists_attempts (p.chain.report request) selectors w
  have hreports : p.chain.reports p.jobs request selectors w = .ok (ends.mapM id) w' :=
    Pool.run_of_mapM hjobs hmap
  cases hall : ends.mapM id with
  | none =>
    rw [hall] at hreports
    refine Or.inl ⟨w', hreports, ?_⟩
    rw [runResolve, Action.bind_apply, Project.resolve, Action.bind_apply, hreports]
    rfl
  | some reports =>
    rw [hall] at hreports
    refine Or.inr ⟨reports, w', hreports, ?_, fun r hr => ?_⟩
    · rw [runResolve, Action.bind_apply, Project.resolve, Action.bind_apply, hreports]
      dsimp only
      rw [Action.bind_apply, logReports_apply]
      rfl
    · have hsome : List.Forall₂ Eq ends (reports.map some) :=
        List.forall₂_map_right_iff.2 (Pool.mapM_eq_some_iff.1 hall)
      rw [List.forall₂_eq_eq_eq] at hsome
      have hmem : some r ∈ ends := hsome ▸ List.mem_map_of_mem hr
      obtain ⟨s, _, w₁, w₂, hreport⟩ := hends r hmem
      exact Report.logged (Chain.download_ne_unset hreport)

/-! ## A file that does not exist -/

/-- A project with one repository, which has a descriptor, but not the file that it declares. -/
def unpublished : World Tree where
  env :=
    { entries := [
        (["p"], .directory),
        (["p", "artifetch.toml"],
          .file (Text.encode "[[repository]]\nname = \"a\"\nurl = \"repo\"\n") 0),
        (["p", "repo"], .directory),
        (["p", "repo", "g"], .directory),
        (["p", "repo", "g", "lib"], .directory),
        (["p", "repo", "g", "lib", "1.0"], .directory),
        (["p", "repo", "g", "lib", "1.0", "module-1.0.toml"],
          .file (Text.encode ("[module]\ngroup = \"g\"\nname = \"lib\"\nversion = \"1.0\"\n\n" ++
            "[[configurations.default.artifacts]]\nname = \"lib\"\n")) 0)] }

/-- The run that is to download the file. -/
def unpublishedRun : Ending × World Tree :=
  finish { workingDirectory := "/p", home := "/h" } ["resolve", "--download", "g:lib:1.0"]
    unpublished

/-- It fails for its report, and there is neither a warning nor an error. -/
theorem unpublished_unsaid :
    unpublishedRun.1 = ⟨1, "g:lib:1.0 -> g:lib:1.0\n  configuration default: 1 artifact(s)\n" ++
      "    g:lib:1.0:lib@jar\n  g:lib:1.0:lib@jar -> NOT DOWNLOADED\n"⟩ ∧
    unpublishedRun.2.log = [⟨.info, "Acquired a lock on /h/.artifetch/cache/.lock"⟩,
      ⟨.info, "Resolving g:lib:1.0"⟩] := by
  decide +kernel

/-- The project itself, with its cache elsewhere. -/
def unpublishedProject : Project where
  cache := ⟨"/c", 1, 0⟩
  policy := {}
  chain := ({} : Policy).chain [⟨"a", Format.toml {}, Cache.Directory.store ⟨"/c", 1, 0⟩,
    FileSite.transport ⟨"/p/repo"⟩ .whole none, {}⟩]
  jobs := 1

theorem unpublishedProject_reports :
    ((unpublishedProject.chain.reports 1 { download := true } [⟨"g", "lib", .exact "1.0"⟩]).finish
      unpublished).1.toOption.map (fun reports => reports.map fun reports => reports.map fun r =>
        (r.isSuccess, r.logLines)) = some (some [(false, [])]) := by
  decide +kernel

theorem unpublished_logged : ∃ (r : Report) (ending : Ending) (w' : World Tree),
    runResolve unpublishedProject { download := true } [⟨"g", "lib", .exact "1.0"⟩] unpublished =
      .ok ending w' ∧ ending.status = 1 ∧ r.isSuccess = false ∧ r.Logged [] := by
  have hjobs : unpublishedProject.jobs ≤ Pool.maxWorkers := by decide
  have hdone := unpublishedProject_reports
  rcases runResolve_logs unpublishedProject hjobs { download := true } [⟨"g", "lib", .exact "1.0"⟩]
    unpublished with ⟨w', hreports, _⟩ | ⟨reports, w', hreports, hrun, hlogged⟩
  · change unpublishedProject.chain.reports 1 _ _ _ = _ at hreports
    rw [Action.finish, hreports] at hdone
    cases hdone
  · change unpublishedProject.chain.reports 1 _ _ _ = _ at hreports
    rw [Action.finish, hreports] at hdone
    have hone : reports.map (fun r => (r.isSuccess, r.logLines)) = [(false, [])] :=
      Option.some.inj (Option.some.inj hdone)
    obtain ⟨r, rfl, hr⟩ := List.map_eq_singleton_iff.1 hone
    obtain ⟨hs, hlines⟩ := Prod.mk.inj hr
    rw [List.all_cons, hs, Bool.false_and, if_neg Bool.false_ne_true] at hrun
    exact ⟨r, _, _, hrun, rfl, hs, hlines ▸ hlogged r List.mem_cons_self⟩

end CommandLine
end ArtifactResolver
