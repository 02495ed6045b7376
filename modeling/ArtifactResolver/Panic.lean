/-!
# Panics

A computation that cannot go on ends in a panic. Nothing that it was asked for comes back, but what
it did before stays done.
-/

namespace ArtifactResolver

/-- The end of a computation that could not go on. -/
structure Panic where
  /-- What the computation says at its end. -/
  text : String
deriving DecidableEq, Repr

end ArtifactResolver
