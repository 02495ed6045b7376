import ArtifactResolver.World

/-!
# Parts of an environment

A store or a transport knows its own part of the environment only. A lens says where that part is,
and by it actions on the part become actions on the whole.
-/

namespace ArtifactResolver

/-- The place of a part in a whole. -/
structure Lens (σ τ : Type) where
  /-- The part of a whole. -/
  get : σ → τ
  /-- The whole with its part replaced. -/
  set : τ → σ → σ

/-- The whole as a part of itself. -/
def Lens.whole {σ : Type} : Lens σ σ := ⟨id, fun s _ => s⟩

namespace Action

variable {σ τ α : Type}

/-- The world of a part. -/
def partOf (l : Lens σ τ) (w : World σ) : World τ := ⟨l.get w.env, w.held, w.calls, w.log⟩

/-- The world of a whole after its part has changed. -/
def putBack (l : Lens σ τ) (env : σ) (w : World τ) : World σ :=
  ⟨l.set w.env env, w.held, w.calls, w.log⟩

/-- Acts on a part of the environment. -/
def within (l : Lens σ τ) (a : Action τ α) : Action σ α := fun w =>
  match a (partOf l w) with
  | .ok value w' => .ok value (putBack l w.env w')
  | .error panic w' => .error panic (putBack l w.env w')

end Action
end ArtifactResolver
