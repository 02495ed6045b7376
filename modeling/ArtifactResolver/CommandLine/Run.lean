import ArtifactResolver.CommandLine.Arguments
import ArtifactResolver.CommandLine.Help
import ArtifactResolver.Project

/-!
# Running the program

What the program does with the words of its command line: the text that it prints and the status
with which it ends. Everything that goes wrong after the words were understood ends with status one,
but for a panic, which has a status of its own.
-/

namespace ArtifactResolver.CommandLine

open Files (Tree)

/-- How a run of the program ends. -/
structure Ending where
  /-- The status for the caller. -/
  status : Nat
  /-- The text on the standard output. -/
  output : String := ""
deriving DecidableEq, Repr

/-- The end of a run that failed. -/
def Ending.failure : Ending := ⟨1, ""⟩

/-- The end of a run that panicked. -/
def Ending.panic : Ending := ⟨101, ""⟩

/-- The name and the version of the program. -/
def versionText : String := "artifetch 0.1.0\n"

/-- What is printed for words that are not carried out, if the user asked for it. -/
def answerTo? : UsageError → Option String
  | .displayHelp topic => some (helpOn topic)
  | .displayVersion => some versionText
  | _ => none

/-- Ends a run whose words are not carried out: with what the user asked for, or with an error. -/
def endUsage (e : UsageError) : Action Tree Ending := do
  match answerTo? e with
  | some text => return ⟨e.exitStatus, text⟩
  | none => do
    Action.log .error e.message
    return ⟨e.exitStatus, ""⟩

/-- How a project is opened for the words of a command line. A flag that is not given leaves the
settings of the user in charge. -/
def optionsOf (a : Arguments) : Options where
  root := a.root
  repositoriesFile := a.repositoriesFile
  cacheDirectory := a.cacheDirectory
  offline := if a.offline then some true else none
  refresh := if a.refresh then some true else none
  jobs := match a.command with
    | .resolve _ _ jobs => jobs
    | _ => none

/-- Resolves modules. The run is successful if all requests were. -/
def runResolve (p : Project) (request : ModuleRequest) (selectors : List Selector) :
    Action Tree Ending := do
  match ← p.resolve request selectors with
  | none => return .failure
  | some reports =>
    return ⟨if reports.all (·.isSuccess) then 0 else 1, String.join (reports.map (·.describe))⟩

/-- Lists the versions of a module. -/
def runVersions (p : Project) (s : Selector) : Action Tree Ending := do
  match (← p.versions s).resolution with
  | some (.resolved versions) => return ⟨0, String.join (versions.map (·.text ++ "\n"))⟩
  | some (.failed f) => do
    Action.log .error f.message
    return .failure
  | _ => do
    Action.log .warn s!"No repository lists versions of {s.display}"
    return .failure

/-- Removes all entries of the cache. -/
def runClear (p : Project) : Action Tree Ending := do
  match ← p.clearCache with
  | .ok _ => return ⟨0, ""⟩
  | .error e => do
    Action.log .error e.message
    return .failure

/-- The wording of the reason why a project cannot be opened. -/
def openMessage : OpenError → String
  | .settings .malformed => "invalid configuration in the environment"
  | .settings (.badTrust e) => e.message
  | .cache e => e.message
  | .repositories e => e.message

/-- Does what the words of a command line ask for. -/
def run (surroundings : Surroundings) (a : Arguments) : Action Tree Ending := do
  match ← Project.openWith surroundings (optionsOf a) with
  | .error e => do
    Action.log .error (openMessage e)
    return .failure
  | .ok p =>
    match a.command with
    | .resolve selectors request _ => runResolve p request selectors
    | .versions s => runVersions p s
    | .clearCache => runClear p

/-- Runs the program. -/
def runWords (surroundings : Surroundings) (words : List String) : Action Tree Ending := do
  match parse words with
  | .error e => endUsage e
  | .ok a => run surroundings a

/-- Runs the program to its end, which a panic hastens. -/
def finish (surroundings : Surroundings) (words : List String) (w : World Tree) :
    Ending × World Tree :=
  match runWords surroundings words w with
  | .ok ending w => (ending, w)
  | .error panic w => (.panic, { w with log := w.log ++ [⟨.error, panic.text⟩] })

end ArtifactResolver.CommandLine
