import ArtifactResolver.Duration
import ArtifactResolver.Files.Error

/-!
# Why the cache fails

A cache that is kept in a directory is guarded by a lock file, so besides the errors of its files
there are those of its location and of its lock.
-/

namespace ArtifactResolver

/-- Why a lock file could not be locked. -/
inductive LockError where
  /-- The file could not be created or locked. -/
  | io (cause : Files.Error)
  /-- Another process held the lock all the time that was waited for it. -/
  | contended (path : String) (waited : Duration)
deriving DecidableEq, Repr

/-- The wording of an error. -/
def LockError.message : LockError → String
  | io cause => cause.message
  | contended path waited =>
    s!"Lock on {path} is still held by another process after {waited.display}"

/-- Why an operation on the cache failed. -/
inductive CacheError where
  /-- The location of the cache is not a directory. -/
  | badLocation (location : String)
  /-- The lock of the location could not be acquired. -/
  | lock (cause : LockError)
  /-- A file or directory of the cache could not be accessed. -/
  | io (cause : Files.Error)
deriving DecidableEq, Repr

/-- The wording of an error. -/
def CacheError.message : CacheError → String
  | badLocation location => s!"Cache location {location} does not exist"
  | lock cause => s!"Cache lock cannot be acquired: {cause.message}"
  | io cause => s!"IO error: {cause.message}"

end ArtifactResolver
