import ArtifactResolver.Chain

/-!
# Reports

Resolving a request for a module gives a report: the metadata, the artifacts of every category that
the request names, and the downloads. A report is written out line by line, and a request was
successful if nothing in its report failed and no download is left out.
-/

namespace ArtifactResolver

/-- What is wanted of a module. -/
structure ModuleRequest where
  /-- The configuration whose artifacts are wanted. -/
  configuration : String := "default"
  /-- Whether its sources are wanted. -/
  sources : Bool := false
  /-- Whether its documentation is wanted. -/
  documentation : Bool := false
  /-- Whether the artifacts are to be downloaded. -/
  download : Bool := false
deriving DecidableEq, Repr

/-- The categories that are wanted, in the order in which they are resolved. -/
def ModuleRequest.categories (r : ModuleRequest) : List Category :=
  .configuration r.configuration :: (if r.sources then [.sources] else []) ++
    if r.documentation then [.documentation] else []

/-- What became of a request for a module. -/
structure Report where
  /-- The module that was asked for. -/
  selector : Selector
  /-- Its metadata. -/
  metadata : Outcome Metadata
  /-- The artifacts of each category, in ascending order of the categories. -/
  artifacts : List (Category × Outcome (List Artifact)) := []
  /-- The downloads in the order in which they were made. -/
  downloads : List (Artifact × Outcome Located) := []

namespace Report

/-- Whether the module was found and nothing of what is wanted failed. -/
def isSuccess (r : Report) : Bool :=
  r.metadata.isResolved && r.artifacts.all (fun entry => !entry.2.isFailed) &&
    r.downloads.all fun entry => entry.2.isResolved

/-- All failures: of the metadata, of the categories, of the downloads. -/
def failures (r : Report) : List Failure :=
  r.metadata.failure?.toList ++ r.artifacts.filterMap (fun entry => entry.2.failure?) ++
    r.downloads.filterMap fun entry => entry.2.failure?

/-- A line of the written report. -/
inductive Line where
  /-- The module was found. -/
  | found (selector : Selector) (coordinate : Coordinate)
  /-- The lookup of the module failed. -/
  | failed (selector : Selector)
  /-- The module was not found. -/
  | notFound (selector : Selector)
  /-- The number of artifacts of a category. -/
  | category (c : Category) (count : Nat)
  /-- An artifact of the category above. -/
  | artifact (a : Artifact)
  /-- The lookup of a category failed. -/
  | categoryFailed (c : Category)
  /-- A category was not found. -/
  | categoryNotFound (c : Category)
  /-- A download and its file. -/
  | downloaded (a : Artifact) (path : String)
  /-- A download that was not made. -/
  | notDownloaded (a : Artifact)
  /-- A failure. -/
  | failure (f : Failure)

/-- The text of a line. -/
def Line.text : Line → String
  | found selector coordinate => s!"{selector.display} -> {coordinate.display}"
  | failed selector => s!"{selector.display} -> FAILED"
  | notFound selector => s!"{selector.display} -> NOT FOUND"
  | category c count => s!"  {c.display}: {count} artifact(s)"
  | artifact a => s!"    {a.display}"
  | categoryFailed c => s!"  {c.display}: FAILED"
  | categoryNotFound c => s!"  {c.display}: NOT FOUND"
  | downloaded a path => s!"  {a.display} -> {path}"
  | notDownloaded a => s!"  {a.display} -> NOT DOWNLOADED"
  | failure f => s!"  error: {f.message}"

/-- The line about the module. -/
def headingLine (r : Report) : Line :=
  match r.metadata.resolution with
  | some (.resolved m) => .found r.selector m.coordinate
  | some (.failed _) => .failed r.selector
  | some .missing => .notFound r.selector
  | none => .notFound r.selector

/-- The lines about a category. -/
def categoryLines (c : Category) (o : Outcome (List Artifact)) : List Line :=
  match o.resolution with
  | some (.resolved artifacts) => .category c artifacts.length :: artifacts.map .artifact
  | some (.failed _) => [.categoryFailed c]
  | some .missing => [.categoryNotFound c]
  | none => [.categoryNotFound c]

/-- The line about a download. -/
def downloadLine (a : Artifact) (o : Outcome Located) : Line :=
  match o.value? with
  | some located => .downloaded a located.path
  | none => .notDownloaded a

/-- The lines of the written report. -/
def lines (r : Report) : List Line :=
  r.headingLine :: r.artifacts.flatMap (fun entry => categoryLines entry.1 entry.2) ++
    r.downloads.map (fun entry => downloadLine entry.1 entry.2) ++ r.failures.map .failure

/-- The written report. -/
def describe (r : Report) : String := String.join (r.lines.map fun line => line.text ++ "\n")

/-- What the log says about a report once it is complete. -/
def logLines (r : Report) : List LogLine :=
  match r.metadata.resolution with
  | some (.resolved m) =>
    if r.isSuccess then [⟨.info, s!"Resolved {r.selector.display} to {m.coordinate.display}"⟩]
    else r.failures.map fun f => ⟨.error, f.message⟩
  | some (.failed _) => r.failures.map fun f => ⟨.error, f.message⟩
  | some .missing => [⟨.warn, s!"Could not find {r.selector.display}"⟩]
  | none => [⟨.warn, s!"Could not find {r.selector.display}"⟩]

end Report

namespace Chain

variable {σ : Type}

/-- Downloads artifacts one by one. -/
def download (c : Chain σ) (artifacts : List Artifact) :
    Action σ (List (Artifact × Outcome Located)) :=
  artifacts.mapM fun a => return (a, ← c.artifact a)

/-- Resolves one category of a module, and makes the downloads of it that are wanted. -/
def resolveCategory (c : Chain σ) (m : Metadata) (download : Bool) (category : Category) :
    Action σ ((Category × Outcome (List Artifact)) × List (Artifact × Outcome Located)) := do
  let artifacts ← c.artifacts m category
  let wanted := if download then artifacts.value?.getD [] else []
  return ((category, artifacts), ← c.download wanted)

/-- Resolves what is wanted of a module. -/
def report (c : Chain σ) (request : ModuleRequest) (s : Selector) : Action σ Report := do
  Action.log .info s!"Resolving {s.display}"
  let metadata ← c.select s
  match metadata.resolution with
  | some (.resolved m) => do
    let parts ← request.categories.mapM (c.resolveCategory m request.download)
    return ⟨s, metadata, Ascending.ofEntries (parts.map (·.1)), parts.flatMap (·.2)⟩
  | some .missing => do
    Action.log .warn s!"{s.display} was not found in any repository"
    return { selector := s, metadata := metadata }
  | _ => return { selector := s, metadata := metadata }

end Chain
end ArtifactResolver
