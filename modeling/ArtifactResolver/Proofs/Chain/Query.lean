import ArtifactResolver.Chain
import ArtifactResolver.Proofs.Action

/-!
# The four lookups as one

A half and a chain answer the same four lookups. A `Query` is one of them with what is looked up, so
that a statement about all four, or about a sequence of lookups of different kinds, is one
statement. The metadata for a selector takes one lookup or two.
-/

namespace ArtifactResolver

variable {σ α : Type}

/-- A lookup, by the type of the value that it looks for. -/
inductive Query : Type → Type where
  /-- The versions of a module. -/
  | versions (s : Selector) : Query (List Version)
  /-- The metadata of a module version. -/
  | metadata (c : Coordinate) : Query Metadata
  /-- The artifacts of a category. -/
  | artifacts (m : Metadata) (category : Category) : Query (List Artifact)
  /-- The file of an artifact. -/
  | artifact (a : Artifact) : Query Located

namespace Query

/-- The operation that a failure of the chain names. -/
def operation : Query α → Operation
  | versions _ => .listing
  | metadata _ => .metadata
  | artifacts _ _ => .artifacts
  | artifact _ => .artifact

/-- What a failure of the chain says was looked up. -/
def subject : Query α → String
  | versions s => s.moduleName
  | metadata c => c.display
  | artifacts m category => artifactsSubject category m.coordinate
  | artifact a => a.display

end Query

/-- The answer of a half to a lookup. -/
def Half.answer (h : Half σ) : Query α → Action σ (Outcome α)
  | .versions s => h.versions s
  | .metadata c => h.metadata c
  | .artifacts m category => h.artifacts m category
  | .artifact a => h.artifact a

/-- An outcome is a value if it was written as one. -/
theorem Outcome.isResolved_iff {o : Outcome α} : o.isResolved = true ↔ ∃ v, o = .resolved v := by
  rcases o with ⟨_ | v | _ | _⟩ <;> simp [isResolved, resolved]

theorem Outcome.resolved_injective {value value' : α}
    (h : (resolved value : Outcome α) = resolved value') : value = value' := by
  simpa [resolved] using h

namespace Chain

/-- The answer of a chain to a lookup. -/
def lookup (c : Chain σ) : Query α → Action σ (Outcome α)
  | .versions s => c.versions s
  | .metadata coordinate => c.metadata coordinate
  | .artifacts m category => c.artifacts m category
  | .artifact a => c.artifact a

/-- Every lookup asks the halves of the chain in the same way. -/
theorem lookup_eq_ask (c : Chain σ) (q : Query α) :
    c.lookup q = ask q.operation q.subject (·.answer q) [] c.halves := by
  cases q <;> rfl

section Ask

variable {operation : Operation} {subject : String} {query : Half σ → Action σ (Outcome α)}
  {failures : List (String × Failure)} {w : World σ}

theorem ask_nil_nil : ask operation subject query [] [] w = .ok .missing w := by
  simp [ask]

theorem ask_nil (h : failures ≠ []) :
    ask operation subject query failures [] w =
      .ok (.failed (.exhausted operation subject failures)) w := by
  cases failures with
  | nil => exact absurd rfl h
  | cons f rest => simp [ask]

/-- What becomes of a lookup when the next half is asked. -/
theorem ask_cons (half : String × Half σ) (rest : List (String × Half σ)) :
    ask operation subject query failures (half :: rest) w = match query half.2 w with
      | .ok ⟨some (.resolved value)⟩ w' => .ok (.resolved value) w'
      | .ok ⟨some (.failed failure)⟩ w' =>
        ask operation subject query (failures ++ [(half.1, failure)]) rest w'
      | .ok ⟨some .missing⟩ w' => ask operation subject query failures rest w'
      | .ok ⟨none⟩ w' => ask operation subject query failures rest w'
      | .error p w' => .error p w' := by
  obtain ⟨name, half⟩ := half
  rw [ask, Action.bind_apply]
  cases query half w with
  | error p w' => rfl
  | ok o w' => rcases o with ⟨_ | _ | _ | _⟩ <;> rfl

end Ask

/-! ## Selectors -/

/-- What becomes of the versions that were listed for a selector. -/
def selected (c : Chain σ) (s : Selector) (o : Outcome (List Version)) :
    Action σ (Outcome Metadata) :=
  match o.resolution with
  | some (.resolved versions) =>
    match s.constraint.select versions with
    | some version => c.metadata (s.withVersion version)
    | none => return .missing
  | some (.failed failure) => return .failed failure
  | some .missing => return .missing
  | none => return .missing

theorem select_of_dynamic {c : Chain σ} {s : Selector} (h : s.toCoordinate? = none) :
    c.select s = c.lookup (.versions s) >>= c.selected s := by
  unfold select
  rw [h]
  rfl

end Chain
end ArtifactResolver
