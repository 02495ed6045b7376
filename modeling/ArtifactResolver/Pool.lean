import ArtifactResolver.Report

/-!
# The pool of workers

Requests are worked on side by side, and their results come in the order of the requests. A worker
that panics does not keep the others from their work, but it fails the requests as a whole. The
number of workers has a limit, which is checked before any work is done.
-/

namespace ArtifactResolver

namespace Pool

variable {σ α β : Type}

/-- The result of an item, none if the worker panicked. -/
def attempt (work : α → Action σ β) (a : α) : Action σ (Option β) := fun w =>
  match work a w with
  | .ok b w' => .ok (some b) w'
  | .error _ w' => .ok none w'

/-- The most workers that a pool can have. -/
def maxWorkers : Nat := Nat.pow 2 61 - 1

/-- What a pool panics with that would have too many workers. -/
def tooManyWorkers : Panic :=
  ⟨s!"a semaphore may not have more than MAX_PERMITS permits ({maxWorkers})"⟩

/-- Works on all items with the given number of workers. The result is none if a worker panicked. -/
def run (jobs : Nat) (work : α → Action σ β) (items : List α) :
    Action σ (Option (List β)) := do
  if maxWorkers < jobs then throw tooManyWorkers
  return (← items.mapM (attempt work)).mapM id

end Pool

/-- Resolves what is wanted of every module with the given number of workers, and reports on it. -/
def Chain.reports {σ : Type} (c : Chain σ) (jobs : Nat) (request : ModuleRequest)
    (selectors : List Selector) : Action σ (Option (List Report)) :=
  Pool.run jobs (c.report request) selectors

/-- Logs what became of the requests. -/
def logReports {σ : Type} (reports : List Report) : Action σ Unit :=
  reports.forM fun report => report.logLines.forM fun line => Action.log line.level line.text

end ArtifactResolver
