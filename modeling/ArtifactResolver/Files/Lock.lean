import ArtifactResolver.Cache.Error
import ArtifactResolver.Files.Tree
import ArtifactResolver.World

/-!
# File locks

A lock file is created when it does not exist, and emptied when it does. Sessions act one after the
other, so a lock is never held by another one when it is asked for.
-/

namespace ArtifactResolver.Files

/-- Locks the file at a path. -/
def acquireLock (path : String) : Action Tree (Except LockError Unit) := do
  match (← Action.env).write path [] with
  | .ok t => do
    Action.setEnv t
    Action.log .info s!"Acquired a lock on {path}"
    return .ok ()
  | .error e => return .error (.io e)

end ArtifactResolver.Files
