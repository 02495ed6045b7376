import ArtifactResolver.Proofs.Report.Diagnostics
import Mathlib.Data.List.Nodup

/-!
# What the lines of a report tell

A report is written out line by line, from one of its parts after the other, while its success, and
with it the status of a run, is told from the parts themselves. A reader who takes each line for
what it was written as, since the text of a failure may look like anything, is told the same:
something is lacking exactly if the report is no success, and every artifact, download and failure
of the report is there, each of them once.
-/

namespace ArtifactResolver

variable {σ α β : Type}

theorem Outcome.value?_eq_some_iff {o : Outcome α} {value : α} :
    o.value? = some value ↔ o = .resolved value := by
  rcases o with ⟨_ | _ | _ | _⟩ <;> simp [value?, resolved]

namespace Report

/-! ## Reading lines -/

namespace Line

/-- The words at the end of a line that says that something is lacking, none for other lines. -/
def lack? : Line → Option String
  | failed _ => some " -> FAILED"
  | notFound _ => some " -> NOT FOUND"
  | categoryFailed _ => some ": FAILED"
  | notDownloaded _ => some " -> NOT DOWNLOADED"
  | _ => none

/-- The category that a line is about, with the number of artifacts that it states if it does. -/
def category? : Line → Option (Category × Option Nat)
  | category c count => some (c, some count)
  | categoryFailed c => some (c, none)
  | categoryNotFound c => some (c, none)
  | _ => none

/-- The artifact of a category that a line is about. -/
def artifact? : Line → Option Artifact
  | artifact a => some a
  | _ => none

/-- The download that a line is about, with the path of its file if there is one. -/
def download? : Line → Option (Artifact × Option String)
  | downloaded a path => some (a, some path)
  | notDownloaded a => some (a, none)
  | _ => none

/-- The failure that a line is about. -/
def failure? : Line → Option Failure
  | failure f => some f
  | _ => none

/-- The part of a report that a line is about. -/
inductive Part where
  /-- The module. -/
  | module
  /-- A category. -/
  | category
  /-- A download. -/
  | download
  /-- A failure. -/
  | failure
deriving DecidableEq

/-- The part that a line is written for. -/
def part : Line → Part
  | found _ _ => .module
  | failed _ => .module
  | notFound _ => .module
  | category _ _ => .category
  | artifact _ => .category
  | categoryFailed _ => .category
  | categoryNotFound _ => .category
  | downloaded _ _ => .download
  | notDownloaded _ => .download
  | failure _ => .failure

variable {line : Line}

theorem text_of_lack? {words : String} (h : line.lack? = some words) :
    ∃ about, line.text = about ++ words := by
  cases line <;> cases h <;> exact ⟨_, rfl⟩

theorem category?_eq_none (h : line.part ≠ .category) : line.category? = none := by
  cases line <;> first | rfl | exact absurd rfl h

theorem artifact?_eq_none (h : line.part ≠ .category) : line.artifact? = none := by
  cases line <;> first | rfl | exact absurd rfl h

theorem download?_eq_none (h : line.part ≠ .download) : line.download? = none := by
  cases line <;> first | rfl | exact absurd rfl h

theorem failure?_eq_none (h : line.part ≠ .failure) : line.failure? = none := by
  cases line <;> first | rfl | exact absurd rfl h

end Line

/-- The artifacts that lines are about, each with the category that the last line about a category
was about before it. -/
def listed : Option Category → List Line → List (Option Category × Artifact)
  | _, [] => []
  | c, line :: rest =>
    (line.artifact?.map fun a => (c, a)).toList ++ listed ((line.category?.map (·.1)).or c) rest

/-! ## The lines of one part -/

section Parts

variable {r : Report} {c : Category} {o : Outcome (List Artifact)} {a : Artifact}
  {d : Outcome Located} {place : Option Category} {rest : List Line}

theorem part_headingLine (r : Report) : r.headingLine.part = .module := by
  rw [headingLine]
  rcases r.metadata with ⟨_ | _ | _ | _⟩ <;> rfl

theorem part_categoryLines {line : Line} (h : line ∈ categoryLines c o) :
    line.part = .category := by
  rw [categoryLines] at h
  rcases o with ⟨_ | set | _ | _⟩
  · exact List.mem_singleton.1 h ▸ rfl
  · rcases List.mem_cons.1 h with rfl | h
    · rfl
    · obtain ⟨a, _, rfl⟩ := List.mem_map.1 h
      rfl
  · exact List.mem_singleton.1 h ▸ rfl
  · exact List.mem_singleton.1 h ▸ rfl

theorem part_downloadLine (a : Artifact) (d : Outcome Located) :
    (downloadLine a d).part = .download := by
  rw [downloadLine]
  cases d.value? <;> rfl

theorem lack?_headingLine : r.headingLine.lack? = none ↔ r.metadata.isResolved = true := by
  rw [headingLine]
  rcases r.metadata with ⟨_ | _ | _ | _⟩ <;> simp [Line.lack?, Outcome.isResolved]

theorem lack?_categoryLines :
    (∀ line ∈ categoryLines c o, line.lack? = none) ↔ o.isFailed = false := by
  rw [categoryLines]
  rcases o with ⟨_ | _ | _ | _⟩ <;> simp [Line.lack?, Outcome.isFailed]

theorem lack?_downloadLine : (downloadLine a d).lack? = none ↔ d.isResolved = true := by
  rw [downloadLine]
  rcases d with ⟨_ | _ | _ | _⟩ <;> simp [Line.lack?, Outcome.isResolved, Outcome.value?]

/-- The first line on a category says what became of it. -/
theorem category?_categoryLines : (categoryLines c o).filterMap Line.category? =
    [(c, o.value?.map List.length)] := by
  rw [categoryLines]
  rcases o with ⟨_ | _ | _ | _⟩ <;> simp [Line.category?, Outcome.value?]

theorem download?_downloadLine :
    (downloadLine a d).download? = some (a, d.value?.map (·.path)) := by
  rw [downloadLine]
  cases d.value? <;> rfl

theorem listed_of_forall (h : ∀ line ∈ rest, line.part ≠ .category) : listed place rest = [] := by
  induction rest generalizing place with
  | nil => rfl
  | cons line rest ih =>
    rw [listed, Line.artifact?_eq_none (h line List.mem_cons_self),
      ih fun line hline => h line (List.mem_cons_of_mem _ hline)]
    rfl

theorem listed_artifacts (set : List Artifact) : listed place (set.map .artifact ++ rest) =
    set.map (fun a => (place, a)) ++ listed place rest := by
  induction set with
  | nil => rfl
  | cons a set ih => exact congrArg ((place, a) :: ·) ih

/-- The artifacts of a category are listed with it. -/
theorem listed_categoryLines : listed place (categoryLines c o ++ rest) =
    (o.value?.getD []).map (fun a => (some c, a)) ++ listed (some c) rest := by
  rw [categoryLines]
  rcases o with ⟨_ | set | _ | _⟩
  · rfl
  · exact listed_artifacts set
  · rfl
  · rfl

theorem listed_categories (entries : List (Category × Outcome (List Artifact)))
    (h : ∀ line ∈ rest, line.part ≠ .category) :
    listed place (entries.flatMap (fun entry => categoryLines entry.1 entry.2) ++ rest) =
      entries.flatMap fun entry =>
        (entry.2.value?.getD []).map fun a => (some entry.1, a) := by
  induction entries generalizing place with
  | nil => exact listed_of_forall h
  | cons entry entries ih =>
    rw [List.flatMap_cons, List.append_assoc, listed_categoryLines, ih, List.flatMap_cons]

end Parts

/-! ## The lines of a report -/

section Lines

variable {r : Report}

/-- What is found on all lines is found on those of one part after the other. -/
theorem filterMap_lines (r : Report) (f : Line → Option β) : r.lines.filterMap f =
    (f r.headingLine).toList ++
      r.artifacts.flatMap (fun entry => (categoryLines entry.1 entry.2).filterMap f) ++
      r.downloads.filterMap (fun entry => f (downloadLine entry.1 entry.2)) ++
      r.failures.filterMap fun failure => f (.failure failure) := by
  rw [lines, List.filterMap_append, List.filterMap_append, List.filterMap_map, List.filterMap_map,
    List.filterMap_cons, List.filterMap_flatMap]
  cases f r.headingLine <;> rfl

/-- What is found neither on the heading nor on failures is found in between. -/
theorem filterMap_lines_between {f : Line → Option β}
    (hheading : ∀ line : Line, line.part = .module → f line = none)
    (hfailure : ∀ failure, f (.failure failure) = none) : r.lines.filterMap f =
      r.artifacts.flatMap (fun entry => (categoryLines entry.1 entry.2).filterMap f) ++
        r.downloads.filterMap fun entry => f (downloadLine entry.1 entry.2) := by
  have hfailures : r.failures.filterMap (fun failure => f (.failure failure)) = [] :=
    List.filterMap_eq_nil_iff.2 fun failure _ => hfailure failure
  rw [filterMap_lines, hheading _ (part_headingLine r), hfailures, List.append_nil,
    Option.toList_none, List.nil_append]

theorem isSuccess_iff : r.isSuccess = true ↔ ∀ line ∈ r.lines, line.lack? = none := by
  have hfailures : r.failures.filterMap (fun failure => (Line.failure failure).lack?) = [] :=
    List.filterMap_eq_nil_iff.2 fun _ _ => rfl
  rw [← List.filterMap_eq_nil_iff, filterMap_lines, hfailures, List.append_nil,
    List.append_eq_nil_iff, List.append_eq_nil_iff, Option.toList_eq_nil_iff,
    List.flatMap_eq_nil_iff, List.filterMap_eq_nil_iff, isSuccess, Bool.and_eq_true,
    Bool.and_eq_true, List.all_eq_true, List.all_eq_true]
  simp only [List.filterMap_eq_nil_iff, lack?_headingLine, lack?_categoryLines, lack?_downloadLine,
    Bool.not_eq_true']

theorem category?_lines (r : Report) : r.lines.filterMap Line.category? =
    r.artifacts.map fun entry => (entry.1, entry.2.value?.map List.length) := by
  have hdownloads : r.downloads.filterMap
      (fun entry => (downloadLine entry.1 entry.2).category?) = [] :=
    List.filterMap_eq_nil_iff.2 fun entry _ =>
      Line.category?_eq_none (part_downloadLine entry.1 entry.2 ▸ by decide)
  rw [filterMap_lines_between (fun _ h => Line.category?_eq_none (h ▸ by decide)) fun _ => rfl,
    hdownloads, List.append_nil]
  simp only [category?_categoryLines]
  exact List.map_eq_flatMap.symm

theorem download?_lines (r : Report) : r.lines.filterMap Line.download? =
    r.downloads.map fun entry => (entry.1, entry.2.value?.map (·.path)) := by
  have hcategories : r.artifacts.flatMap
      (fun entry => (categoryLines entry.1 entry.2).filterMap Line.download?) = [] :=
    List.flatMap_eq_nil_iff.2 fun entry _ => List.filterMap_eq_nil_iff.2 fun line hline =>
      Line.download?_eq_none (part_categoryLines hline ▸ by decide)
  rw [filterMap_lines_between (fun _ h => Line.download?_eq_none (h ▸ by decide)) fun _ => rfl,
    hcategories, List.nil_append]
  simp only [download?_downloadLine]
  exact congrFun List.filterMap_eq_map' _

theorem listed_lines (r : Report) : listed none r.lines =
    r.artifacts.flatMap fun entry =>
      (entry.2.value?.getD []).map fun a => (some entry.1, a) := by
  have hrest : ∀ line ∈ r.downloads.map (fun entry => downloadLine entry.1 entry.2) ++
      r.failures.map .failure, line.part ≠ .category := by
    intro line hline
    rcases List.mem_append.1 hline with hline | hline
    · obtain ⟨entry, _, rfl⟩ := List.mem_map.1 hline
      exact part_downloadLine entry.1 entry.2 ▸ by decide
    · obtain ⟨failure, _, rfl⟩ := List.mem_map.1 hline
      intro h
      cases h
  have hheading : r.headingLine.artifact? = none :=
    Line.artifact?_eq_none (part_headingLine r ▸ by decide)
  rw [lines, List.append_assoc, List.cons_append, listed, hheading, listed_categories _ hrest]
  rfl

/-- The failures stand behind all other lines. -/
theorem lines_eq_append (r : Report) : ∃ before, r.lines = before ++ r.failures.map .failure ∧
    ∀ line ∈ before, line.failure? = none := by
  refine ⟨_, rfl, fun line hline => Line.failure?_eq_none ?_⟩
  rcases List.mem_append.1 hline with hline | hline
  · rcases List.mem_cons.1 hline with rfl | hline
    · exact part_headingLine r ▸ by decide
    · obtain ⟨entry, _, hline⟩ := List.mem_flatMap.1 hline
      exact part_categoryLines hline ▸ by decide
  · obtain ⟨entry, _, rfl⟩ := List.mem_map.1 hline
    exact part_downloadLine entry.1 entry.2 ▸ by decide

end Lines

/-! ## What is told -/

/-- There is one answer for each category, and a set of artifacts has none of them twice. -/
structure Proper (r : Report) : Prop where
  categories : (r.artifacts.map (·.1)).Nodup
  sets : ∀ c set, (c, .resolved set) ∈ r.artifacts → set.Nodup

/-- What lines tell of a report. -/
structure ToldBy (r : Report) (lines : List Line) : Prop where
  /-- If the report is no success, some line says so by its last words, and if it is one, no line
  does. -/
  lacking : r.isSuccess = false ↔
    ∃ line ∈ lines, ∃ words about, line.lack? = some words ∧ line.text = about ++ words
  /-- Each category has its line, in their order, which states the size of a set. -/
  categories : lines.filterMap Line.category? =
    r.artifacts.map fun entry => (entry.1, entry.2.value?.map List.length)
  /-- The lines on artifacts are on those of the sets, each below its category. -/
  artifacts : ∀ place a, (place, a) ∈ listed none lines ↔
    ∃ c set, place = some c ∧ (c, .resolved set) ∈ r.artifacts ∧ a ∈ set
  /-- No artifact has two lines below its category, and no category has two lines of its own. -/
  once : (listed none lines).Nodup ∧ ((lines.filterMap Line.category?).map (·.1)).Nodup
  /-- Each download has its line, in their order. -/
  downloads : lines.filterMap Line.download? =
    r.downloads.map fun entry => (entry.1, entry.2.value?.map (·.path))
  /-- Each failure has its line, in their order, and behind all other lines. -/
  failures : ∃ before, lines = before ++ r.failures.map .failure ∧
    ∀ line ∈ before, line.failure? = none

variable {r : Report}

theorem isSuccess_eq_false_iff : r.isSuccess = false ↔
    ∃ line ∈ r.lines, ∃ words about, line.lack? = some words ∧ line.text = about ++ words := by
  rw [← Bool.not_eq_true, isSuccess_iff]
  push Not
  constructor
  · rintro ⟨line, hline, hne⟩
    obtain ⟨words, hwords⟩ := Option.ne_none_iff_exists'.1 hne
    obtain ⟨about, htext⟩ := Line.text_of_lack? hwords
    exact ⟨line, hline, words, about, hwords, htext⟩
  · rintro ⟨line, hline, words, _, hwords, _⟩
    exact ⟨line, hline, hwords ▸ Option.some_ne_none words⟩

theorem mem_listed_lines {place : Option Category} {a : Artifact} :
    (place, a) ∈ listed none r.lines ↔
      ∃ c set, place = some c ∧ (c, .resolved set) ∈ r.artifacts ∧ a ∈ set := by
  rw [listed_lines, List.mem_flatMap]
  constructor
  · rintro ⟨⟨c, o⟩, hentry, hmem⟩
    obtain ⟨a', ha', heq⟩ := List.mem_map.1 hmem
    obtain ⟨rfl, rfl⟩ := Prod.mk.inj heq
    cases ho : o.value? with
    | none =>
      rw [ho] at ha'
      cases ha'
    | some set =>
      rw [ho] at ha'
      exact ⟨c, set, rfl, Outcome.value?_eq_some_iff.1 ho ▸ hentry, ha'⟩
  · rintro ⟨c, set, rfl, hentry, ha⟩
    exact ⟨_, hentry, List.mem_map.2 ⟨a, ha, rfl⟩⟩

theorem Proper.nodup_listed (h : r.Proper) : (listed none r.lines).Nodup := by
  rw [listed_lines, List.nodup_flatMap]
  refine ⟨fun entry hentry => ?_, ?_⟩
  · refine List.Nodup.map (fun a b hab => (Prod.mk.inj hab).2) ?_
    cases ho : entry.2.value? with
    | none => exact List.nodup_nil
    | some set => exact h.sets entry.1 set (Outcome.value?_eq_some_iff.1 ho ▸ hentry)
  · refine (List.pairwise_map.1 h.categories).imp fun {entry entry'} hne => ?_
    intro pair hpair hpair'
    obtain ⟨a, _, rfl⟩ := List.mem_map.1 hpair
    obtain ⟨a', _, heq⟩ := List.mem_map.1 hpair'
    exact hne (Option.some.inj (Prod.mk.inj heq).1).symm

/-- The written report agrees with the parts that it is made from: its lines, which it consists of,
tell whether it is a success, and all that it holds. -/
theorem written_agrees (r : Report) (h : r.Proper) :
    r.describe = String.join (r.lines.map fun line => line.text ++ "\n") ∧ r.ToldBy r.lines := by
  refine ⟨rfl, isSuccess_eq_false_iff, category?_lines r, fun _ _ => mem_listed_lines,
    ⟨h.nodup_listed, ?_⟩, download?_lines r, lines_eq_append r⟩
  rw [category?_lines, List.map_map]
  exact h.categories

/-! ## A report with parts of every kind -/

/-- An artifact of a module. -/
def mixedArtifact (name : String) : Artifact := ⟨⟨"g", "lib", "1.0"⟩, name, "jar", "jar", none⟩

/-- A report of which a set was found, one does not exist, and one failed, and of which one file is
there and one is not. -/
def mixedReport : Report where
  selector := ⟨"g", "lib", .latest⟩
  metadata := .resolved { coordinate := ⟨"g", "lib", "1.0"⟩ }
  artifacts := [
    (.configuration "default", .resolved [mixedArtifact "lib", mixedArtifact "z"]),
    (.documentation, .missing),
    (.sources, .failed (.offline .artifacts "sources of g:lib:1.0"))]
  downloads := [
    (mixedArtifact "lib", .resolved ⟨mixedArtifact "lib", "/c/lib.jar"⟩),
    (mixedArtifact "z", .missing)]

theorem mixedReport_proper : mixedReport.Proper where
  categories := by decide
  sets c set h := by
    rcases List.mem_cons.1 h with h | h
    · obtain ⟨_, hset⟩ := Prod.mk.inj h
      rw [Outcome.resolved_injective hset]
      decide
    · rcases List.mem_cons.1 h with h | h
      · cases h
      · cases List.mem_singleton.1 h

/-- What its lines tell: that something is lacking, the second artifact with its configuration and
with nothing else, both downloads, and in the end the failure. -/
theorem mixedReport_told :
    mixedReport.describe =
      "g:lib:+ -> g:lib:1.0\n  configuration default: 2 artifact(s)\n" ++
      "    g:lib:1.0:lib@jar\n    g:lib:1.0:z@jar\n  documentation: NOT FOUND\n" ++
      "  sources: FAILED\n  g:lib:1.0:lib@jar -> /c/lib.jar\n" ++
      "  g:lib:1.0:z@jar -> NOT DOWNLOADED\n  error: No cached version of sources of " ++
      "g:lib:1.0 available for offline mode (resolve_module_artifacts)\n" ∧
    (∃ line ∈ mixedReport.lines, ∃ words about,
      line.lack? = some words ∧ line.text = about ++ words) ∧
    (∀ place, (place, mixedArtifact "z") ∈ listed none mixedReport.lines ↔
      place = some (.configuration "default")) ∧
    mixedReport.lines.filterMap Line.download? =
      [(mixedArtifact "lib", some "/c/lib.jar"), (mixedArtifact "z", none)] ∧
    ∃ before, mixedReport.lines = before ++ mixedReport.failures.map .failure := by
  obtain ⟨_, htold⟩ := written_agrees mixedReport mixedReport_proper
  obtain ⟨before, hlines, _⟩ := htold.failures
  refine ⟨by decide +kernel, htold.lacking.1 (by decide), fun place => ?_, htold.downloads, before,
    hlines⟩
  rw [htold.artifacts]
  constructor
  · rintro ⟨c, set, rfl, hentry, _⟩
    rcases List.mem_cons.1 hentry with h | h
    · rw [(Prod.mk.inj h).1]
    · rcases List.mem_cons.1 h with h | h
      · cases h
      · cases List.mem_singleton.1 h
  · rintro rfl
    exact ⟨_, _, rfl, List.mem_cons_self, by decide⟩

end Report

/-! ## The reports of a session -/

theorem ModuleRequest.mem_ascending {request : ModuleRequest} {c : Category} :
    c ∈ request.ascending ↔ c ∈ request.categories := by
  unfold ascending categories
  cases request.sources <;> cases request.documentation <;> simp [or_comm]

/-- The answer for a category comes from a lookup. -/
theorem Report.Covers.answer_of_category {request : ModuleRequest} {s : Selector} {r : Report}
    {heard : List Heard} (h : r.Covers request s heard)
    {entry : Category × Outcome (List Artifact)} (he : entry ∈ r.artifacts) :
    ∃ m, .answer (.artifacts m entry.1) entry.2 ∈ heard := by
  cases h with
  | unresolved => cases he
  | missing => cases he
  | @resolved m sets downloads _ =>
    obtain ⟨c, hc, rfl⟩ := List.mem_map.1 he
    have hanswer : .answer (.artifacts m c) (sets c) ∈
        ModuleRequest.heardFor m c (sets c) (downloads c) := List.mem_cons_self
    exact ⟨m, List.mem_cons_of_mem _ (List.mem_cons_of_mem _
      (List.mem_flatMap.2 ⟨c, ModuleRequest.mem_ascending.1 hc, hanswer⟩))⟩

theorem Report.Covers.nodup_categories {request : ModuleRequest} {s : Selector} {r : Report}
    {heard : List Heard} (h : r.Covers request s heard) : (r.artifacts.map (·.1)).Nodup := by
  cases h with
  | unresolved => exact List.nodup_nil
  | missing => exact List.nodup_nil
  | resolved =>
    rw [List.map_map]
    unfold ModuleRequest.ascending
    cases request.sources <;> cases request.documentation <;> simp

/-- The reports of a session are proper. -/
theorem Chain.report_proper {c : Chain σ} (hc : ∀ half ∈ c.halves, half.2.AnswersSets)
    {request : ModuleRequest} {s : Selector} {r : Report} {w w' : World σ}
    (h : c.report request s w = .ok r w') : r.Proper := by
  have hcases := Talk.run_cases c (request.talk s) w
  rw [Talk.run_talk, h] at hcases
  rcases hcases with ⟨r', w₁, heard, hr, hhears, hcomes⟩ | ⟨_, _, _, _, hr, _⟩
  · obtain ⟨rfl, _⟩ := EStateM.Result.ok.inj hr
    have hcovers := ModuleRequest.covers_of_comes hcomes
    refine ⟨hcovers.nodup_categories, fun category set hentry => ?_⟩
    obtain ⟨m, hanswer⟩ := hcovers.answer_of_category hentry
    exact (hhears.isAscending hc hanswer).nodup
  · cases hr

/-! ## The status of a run -/

/-- A run that has reports prints them, and its status is told by their lines. -/
theorem CommandLine.status_eq_zero_iff {p : Project} {request : ModuleRequest}
    {selectors : List Selector} {reports : List Report} {w w' : World Files.Tree}
    (h : p.resolve request selectors w = .ok (some reports) w') :
    ∃ ending, runResolve p request selectors w = .ok ending w' ∧
      ending.output = String.join (reports.map (·.describe)) ∧
      (ending.status = 0 ↔ ∀ r ∈ reports, ∀ line ∈ r.lines, line.lack? = none) := by
  refine ⟨⟨if reports.all (·.isSuccess) then 0 else 1, String.join (reports.map (·.describe))⟩,
    ?_, rfl, ?_⟩
  · rw [runResolve, Action.bind_apply, h]
    rfl
  · simp only [← Report.isSuccess_iff, ← List.all_eq_true]
    cases reports.all (·.isSuccess) <;> decide

end ArtifactResolver
