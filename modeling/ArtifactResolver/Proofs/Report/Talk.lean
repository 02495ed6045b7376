import ArtifactResolver.Proofs.Action
import ArtifactResolver.Report

/-!
# Reports by their lookups

A report is made of one lookup after the other, and what is looked up next depends on the answers so
far. Here a report is the tree of the lookups that are still to come, each with what follows for
every answer. To ask a chain for all of them at once is what the chain does for a report.
-/

namespace ArtifactResolver

variable {σ α β γ : Type}

/-- A lookup that is made for a report, by the type of the value that it looks for. -/
inductive Inquiry : Type → Type where
  /-- The metadata of the version that a selector asks for. -/
  | select (s : Selector) : Inquiry Metadata
  /-- The artifacts of a category. -/
  | artifacts (m : Metadata) (category : Category) : Inquiry (List Artifact)
  /-- The file of an artifact. -/
  | artifact (a : Artifact) : Inquiry Located

/-- The answer of a chain. -/
def Chain.reply (c : Chain σ) : Inquiry α → Action σ (Outcome α)
  | .select s => c.select s
  | .artifacts m category => c.artifacts m category
  | .artifact a => c.artifact a

/-- What is left of a conversation with a chain: the next lookup, and what follows for every answer
to it. -/
inductive Talk (β : Type) : Type 1 where
  /-- The result is known. -/
  | done (b : β)
  /-- Something is looked up. -/
  | ask {α : Type} (inquiry : Inquiry α) (next : Outcome α → Talk β)
  /-- A line is added to the log. -/
  | line (l : LogLine) (next : Talk β)

namespace Talk

/-! ## One conversation after the other -/

/-- The conversation that goes on with another one when it has come to its result. -/
def andThen (t : Talk β) (f : β → Talk γ) : Talk γ :=
  match t with
  | done b => f b
  | ask inquiry next => ask inquiry fun o => (next o).andThen f
  | line l next => line l (next.andThen f)

instance : Monad Talk where
  pure := done
  bind := andThen

theorem andThen_done (t : Talk β) : t.andThen done = t := by
  induction t with
  | done b => rfl
  | ask inquiry next ih => exact congrArg _ (funext ih)
  | line l next ih => exact congrArg _ ih

theorem andThen_assoc (t : Talk α) (f : α → Talk β) (g : β → Talk γ) :
    (t.andThen f).andThen g = t.andThen fun a => (f a).andThen g := by
  induction t with
  | done b => rfl
  | ask inquiry next ih => exact congrArg _ (funext ih)
  | line l next ih => exact congrArg _ ih

instance : LawfulMonad Talk :=
  LawfulMonad.mk' Talk andThen_done (fun _ _ => rfl) andThen_assoc

/-- Looks something up. -/
def of (inquiry : Inquiry α) : Talk (Outcome α) := ask inquiry done

/-- Adds a line to the log. -/
def note (l : LogLine) : Talk Unit := line l (done ())

end Talk

/-! ## The conversation for a report -/

namespace ModuleRequest

/-- The artifacts that are to be downloaded. -/
def wanted (request : ModuleRequest) (o : Outcome (List Artifact)) : List Artifact :=
  if request.download then o.value?.getD [] else []

/-- The downloads of artifacts, one by one. -/
def talkDownloads (artifacts : List Artifact) : Talk (List (Artifact × Outcome Located)) :=
  artifacts.mapM fun a => return (a, ← .of (.artifact a))

/-- The lookups for one category. -/
def talkCategory (request : ModuleRequest) (m : Metadata) (category : Category) :
    Talk ((Category × Outcome (List Artifact)) × List (Artifact × Outcome Located)) := do
  let artifacts ← .of (.artifacts m category)
  return ((category, artifacts), ← talkDownloads (request.wanted artifacts))

/-- What the log says before a module is looked up. -/
def resolving (s : Selector) : LogLine := ⟨.info, s!"Resolving {s.display}"⟩

/-- What the log says when a module was looked up in vain. -/
def notFound (s : Selector) : LogLine := ⟨.warn, s!"{s.display} was not found in any repository"⟩

/-- All lookups for a report. -/
def talk (request : ModuleRequest) (s : Selector) : Talk Report := do
  Talk.note (resolving s)
  let metadata ← .of (.select s)
  match metadata.resolution with
  | some (.resolved m) => do
    let parts ← request.categories.mapM (request.talkCategory m)
    return ⟨s, metadata, Ascending.ofEntries (parts.map (·.1)), parts.flatMap (·.2)⟩
  | some .missing => do
    Talk.note (notFound s)
    return { selector := s, metadata := metadata }
  | _ => return { selector := s, metadata := metadata }

end ModuleRequest

/-! ## Asking a chain -/

namespace Talk

/-- Asks a chain for everything. -/
def run (c : Chain σ) : Talk β → Action σ β
  | done b => return b
  | ask inquiry next => do run c (next (← c.reply inquiry))
  | line l next => do
    Action.log l.level l.text
    run c next

variable {c : Chain σ}

@[simp] theorem run_bind (t : Talk β) (f : β → Talk γ) :
    (t >>= f).run c = t.run c >>= fun b => (f b).run c := by
  show (t.andThen f).run c = _
  induction t with
  | done b => exact (pure_bind b fun b => (f b).run c).symm
  | ask inquiry next ih => simp only [andThen, run, ih, bind_assoc]
  | line l next ih => simp only [andThen, run, ih, bind_assoc]

@[simp] theorem run_pure (b : β) : (pure b : Talk β).run c = pure b := rfl

@[simp] theorem run_of (inquiry : Inquiry α) : (of inquiry).run c = c.reply inquiry := bind_pure _

@[simp] theorem run_note (l : LogLine) : (note l).run c = Action.log l.level l.text :=
  bind_pure (m := Action σ) _

@[simp] theorem run_mapM (f : α → Talk β) (l : List α) :
    (l.mapM f).run c = l.mapM fun a => (f a).run c := by
  induction l with
  | nil => rfl
  | cons a l ih => simp only [List.mapM_cons, run_bind, run_pure, ih]

/-- The chain does just that for a report. -/
theorem run_talk (request : ModuleRequest) (s : Selector) :
    (request.talk s).run c = c.report request s := by
  have hcategory : ∀ m category, (request.talkCategory m category).run c =
      c.resolveCategory m request.download category := by
    intro m category
    simp only [ModuleRequest.talkCategory, ModuleRequest.talkDownloads, run_bind, run_mapM, run_of,
      run_pure]
    rfl
  simp only [ModuleRequest.talk, run_bind, run_note, run_of]
  unfold Chain.report
  refine bind_congr fun _ => bind_congr fun o => ?_
  rcases o with ⟨_ | m | failure | _⟩
  · rfl
  · simp only [run_bind, run_mapM, hcategory]
    rfl
  · rfl
  · rfl

end Talk
end ArtifactResolver
