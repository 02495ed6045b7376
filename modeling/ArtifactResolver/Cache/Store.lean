import ArtifactResolver.Cache.Error
import ArtifactResolver.Cache.Key
import ArtifactResolver.Policy
import ArtifactResolver.World

/-!
# Stores

A store keeps the entries of a cache in the environment: bytes by key, each with an age. Reading
changes nothing and depends on the environment alone, so an access that fails is one that fails
until something changes; a write may fail, and says what it left behind.
-/

namespace ArtifactResolver.Cache

/-- A place where entries are kept. -/
structure Store (σ : Type) where
  /-- The content of an entry, none if there is no such entry. -/
  read : σ → Key → Except CacheError (Option Bytes)
  /-- The age of an entry, none if there is no such entry. -/
  age : σ → Key → Except CacheError (Option Duration)
  /-- Writes an entry, an earlier one of the key being replaced. -/
  write : σ → Key → Bytes → Except CacheError Unit × σ
  /-- The path at which the content of an entry can be read. -/
  path : Key → String

namespace Store

variable {σ : Type}

/-- Writes an entry. -/
def put (s : Store σ) (key : Key) (bytes : Bytes) : Action σ (Except CacheError Unit) := do
  let (result, env) := s.write (← Action.env) key bytes
  Action.setEnv env
  return result

/-- The content of an entry that is there and trusted at its age. -/
def readFresh (s : Store σ) (env : σ) (trust : Trust) (key : Key) :
    Except CacheError (Option Bytes) := do
  match ← s.age env key with
  | none => return none
  | some age => if trust.isFresh age then s.read env key else return none

/-- Whether there is an entry that is trusted at its age. -/
def hasFresh (s : Store σ) (env : σ) (trust : Trust) (key : Key) : Except CacheError Bool := do
  match ← s.age env key with
  | none => return false
  | some age => return trust.isFresh age

end Store
end ArtifactResolver.Cache
