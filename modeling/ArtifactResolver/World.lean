import ArtifactResolver.Cache.Key
import ArtifactResolver.Outcome

/-!
# Actions

Lookups act on a world: the environment that holds the cache and the sites of the repositories, the
keys under which entries are being worked on, the calls to sites that were made, and what was
reported to the user. An action ends with a value or with a panic, and what it did to the world
before it panicked stays done.
-/

namespace ArtifactResolver

/-- The severity of a line of the log. -/
inductive Level where
  /-- Something that the user may want to know. -/
  | info
  /-- Something that does not fail the request, but may be a fault. -/
  | warn
  /-- Something that fails the request. -/
  | error
deriving DecidableEq, Repr

/-- The written form of a severity. -/
def Level.display : Level → String
  | info => "INFO"
  | warn => "WARN"
  | error => "ERROR"

/-- A line of the log. -/
structure LogLine where
  /-- Its severity. -/
  level : Level
  /-- What it says. -/
  text : String
deriving DecidableEq, Repr

/-- What is asked of a repository's site. -/
inductive Request where
  /-- The content of a file. -/
  | fetch
  /-- Whether a file exists. -/
  | probe
deriving DecidableEq, Repr

/-- A call to the site of a repository. -/
structure Call where
  /-- What is asked. -/
  request : Request
  /-- The name of the repository. -/
  repository : String
  /-- The file that is asked for. -/
  location : String
deriving DecidableEq, Repr

/-- What actions act on. -/
structure World (σ : Type) where
  /-- The environment of caches and sites. -/
  env : σ
  /-- The keys that have an entry in the table of locks. -/
  held : List Cache.Key := []
  /-- The calls to sites so far, the earliest first. -/
  calls : List Call := []
  /-- The lines of the log so far, the earliest first. -/
  log : List LogLine := []

/-- A computation on a world, which ends with a value or with a panic. -/
abbrev Action (σ : Type) : Type → Type := EStateM Panic (World σ)

namespace Action

variable {σ α : Type}

/-- The environment. -/
def env : Action σ σ := do return (← get).env

/-- Replaces the environment. -/
def setEnv (e : σ) : Action σ Unit := modify fun w => { w with env := e }

/-- Adds a line to the log. -/
def log (level : Level) (text : String) : Action σ Unit :=
  modify fun w => { w with log := w.log ++ [⟨level, text⟩] }

/-- Adds a call to the record of calls. -/
def record (call : Call) : Action σ Unit := modify fun w => { w with calls := w.calls ++ [call] }

/-- Ends with the value, or with the panic. -/
def ofExcept : Except Panic α → Action σ α
  | .ok value => return value
  | .error panic => throw panic

/-- Writes an answer to an outcome, and panics if there is one already. -/
def answer (o : Outcome α) (r : Resolution α) : Action σ (Outcome α) := ofExcept (o.set r)

/-- Runs an action while its key has an entry in the table of locks. The entry goes when the action
ends with a value; after a panic it stays until the key is used again. -/
def withLock (key : Cache.Key) (body : Action σ α) : Action σ α := do
  modify fun w => { w with held := if key ∈ w.held then w.held else key :: w.held }
  let result ← body
  modify fun w => { w with held := w.held.filter (· ≠ key) }
  return result

end Action

/-- A computation that has the outcome of a lookup at hand, to which it writes the answer. -/
abbrev Answering (σ α : Type) : Type → Type := StateT (Outcome α) (Action σ)

namespace Answering

variable {σ α : Type}

/-- Writes the answer, and panics if there is one already. -/
def write (r : Resolution α) : Answering σ α Unit := fun o => do return ((), ← Action.answer o r)

/-- Ends with what was written to an outcome that was open. -/
def outcome (body : Answering σ α Unit) : Action σ (Outcome α) := do return (← body .unset).2

end Answering
end ArtifactResolver
