import ArtifactResolver.Text.Utf8
import ArtifactResolver.World

/-!
# Transports

A transport reaches the site where a repository keeps its files. It reads the environment and does
not change it. It may be given a limit, and then it neither waits longer for the site than that nor
panics with it.
-/

namespace ArtifactResolver

/-- How a site replies to a call. -/
inductive Reply (α : Type) where
  /-- The call panics. -/
  | panics (text : String)
  /-- The call takes some time and ends with an answer. -/
  | answers (delay : Duration) (answer : Except TransportError α)

/-- The way to the site of a repository. -/
structure Transport (σ : Type) where
  /-- Asks for the content of a file, which is none if there is no such file. -/
  fetch : σ → String → Reply (Option Bytes)
  /-- Asks whether a file exists. -/
  probe : σ → String → Reply Bool
  /-- How long an answer may take, if that is limited. -/
  limit : Option Duration := none

namespace Transport

variable {σ α : Type}

/-- What the caller gets of a reply. With a limit, a panic is an interruption, and an answer that
takes as long as the limit or longer is given up on. -/
def await (t : Transport σ) (location : String) (reply : Reply α) :
    Action σ (Except TransportError α) :=
  match t.limit, reply with
  | none, .panics text => throw ⟨text⟩
  | none, .answers _ answer => return answer
  | some _, .panics _ => return .error (.interrupted location)
  | some limit, .answers delay answer =>
    if limit.millis ≤ delay.millis then do
      Action.log .warn s!"Gave up on {location} after {limit.display}"
      return .error (.timedOut location limit)
    else return answer

/-- Fetches the content of a file for a repository. -/
def fetchFor (t : Transport σ) (repository location : String) :
    Action σ (Except TransportError (Option Bytes)) := do
  Action.record ⟨.fetch, repository, location⟩
  t.await location (t.fetch (← Action.env) location)

/-- Asks for a repository whether a file exists. -/
def probeFor (t : Transport σ) (repository location : String) :
    Action σ (Except TransportError Bool) := do
  Action.record ⟨.probe, repository, location⟩
  t.await location (t.probe (← Action.env) location)

end Transport
end ArtifactResolver
