import ArtifactResolver.CommandLine.Run
import ArtifactResolver.Files.Change

/-!
# The program

The outer layer. It takes a picture of the files that a run can touch, runs on the picture, and
makes the changes of the run to the files. What a run does is the subject of
`ArtifactResolver.CommandLine`.
-/

namespace ArtifactResolver.Program

open Files (Change Place Tree)

/-- The absolute path of a place. -/
def pathOf (place : Place) : String := Files.Path.ofComponents true place

/-- The place that a path leads to from the working directory, if no name in it is a link. -/
def placeOf (surroundings : Surroundings) (path : String) : Place :=
  (Files.Path.components (Files.Path.join surroundings.workingDirectory path)).foldl
    (fun place name =>
      if name = "." then place else if name = ".." then place.dropLast else place ++ [name]) []

/-- A time of the system in milliseconds. -/
def millisOf (time : IO.FS.SystemTime) : Int := time.sec * 1000 + (time.nsec.toNat / 1000000 : Nat)

/-- The current time in milliseconds: that of the last change of a file which has just been made. -/
def currentMillis : IO Int := do
  let (_, path) ← IO.FS.createTempFile
  let data ← path.metadata
  IO.FS.removeFile path
  return millisOf data.modified

/-- Adds what stands at a place to a picture, and what stands below it as deep as the given number
of names. What cannot be read counts as not there. -/
def addPlace (place : Place) : Nat → Tree → IO Tree
  | 0, t => return t
  | depth + 1, t => do
    let path := (← IO.currentDir) / pathOf place
    match ← path.metadata.toBaseIO with
    | .error _ => return t
    | .ok data =>
      if data.type matches .dir then
        let t := if place = [] then t else t.put place .directory
        match ← (if depth = 0 then pure #[] else path.readDir : IO _).toBaseIO with
        | .error _ => return t
        | .ok inner => inner.foldlM (fun t entry => addPlace (place ++ [entry.fileName]) depth t) t
      else
        match ← (if depth = 0 then pure .empty else IO.FS.readBinFile path : IO _).toBaseIO with
        | .error _ => return t
        | .ok content => return t.put place (.file content.toList (millisOf data.modified))

/-- Adds what stands at the end of a path to a picture, with everything below it, and the
directories that lead there. -/
def addPath (surroundings : Surroundings) (t : Tree) (path : String) : IO Tree := do
  let place := placeOf surroundings path
  let t ← (List.range place.length).foldlM (fun t n => addPlace (place.take n) 1 t) t
  addPlace place Tree.maxPathBytes t

/-- Makes a change to the files. A file gets its new content at once. -/
def carryOut : Change → IO Unit
  | .removeFile place => do IO.FS.removeFile ((← IO.currentDir) / pathOf place)
  | .removeDirectory place => do IO.FS.removeDir ((← IO.currentDir) / pathOf place)
  | .makeDirectory place => do IO.FS.createDirAll ((← IO.currentDir) / pathOf place)
  | .writeFile place content => do
    let path := (← IO.currentDir) / pathOf place
    let filling := (← IO.currentDir) / (pathOf place ++ ".filling")
    IO.FS.writeBinFile filling ⟨content.toArray⟩
    IO.FS.rename filling path

/-- The variables of the environment, each as a name and a value with an equals sign between them
and a NUL behind them. -/
def variablesOf (block : Bytes) : List (String × String) :=
  (block.splitOn 0).filterMap fun entry =>
    match Text.decode entry with
    | .error _ => none
    | .ok text =>
      match text.toList.span (· != '=') with
      | (name, _ :: value) => some (String.ofList name, String.ofList value)
      | (_, []) => none

/-- What surrounds this run. -/
def surroundingsOfRun : IO Surroundings := do
  let here ← IO.currentDir
  let block := match ← (IO.FS.readBinFile (here / "/proc/self/environ")).toBaseIO with
    | .ok bytes => bytes.toList
    | .error _ => []
  return {
    environment := variablesOf block
    workingDirectory := here.toString
    home := (← IO.getEnv "HOME").getD "/" }

/-- The paths that the words of a command line and the settings of the user lead to. -/
structure Paths where
  /-- The directory at which other paths start. -/
  root : String
  /-- The list of repositories. -/
  list : String
  /-- The directory of the cache. -/
  cache : String

/-- The paths of a run, none if it touches no files. -/
def Paths.of? (surroundings : Surroundings) (words : List String) : Option Paths := do
  let arguments ← (CommandLine.parse words).toOption
  let settings ← (← (Settings.ofEnvironment surroundings.environment).toOption).toOption
  let options := CommandLine.optionsOf arguments
  let root := options.root.getD surroundings.workingDirectory
  return ⟨root, Files.Path.join root options.repositoriesFile,
    Project.cacheLocation surroundings options settings root⟩

/-- The path of the lock file. -/
def Paths.lock (p : Paths) : String := Files.Path.join p.cache Cache.Directory.lockName

/-- Takes a picture of the files that a run can touch: the list of repositories, the cache and the
sites. -/
def picture (surroundings : Surroundings) (paths : Option Paths) : IO Tree := do
  let blank : Tree := { origin := placeOf surroundings ".", now := ← currentMillis }
  match paths with
  | none => return blank
  | some p => do
    let t ← addPath surroundings blank p.list
    let sites := match Project.readText t p.list with
      | .ok text => ((RepositoryList.parse text).toOption.getD []).map Definition.url
      | .error _ => []
    (p.cache :: sites.map (Files.Path.join p.root)).foldlM (addPath surroundings) t

/-- Waits for the lock of the cache and takes it. A cache that is not there yet has none. -/
def lockCache (paths : Option Paths) : IO (Option IO.FS.Handle) := do
  match paths with
  | none => return none
  | some p =>
    match ← (IO.FS.Handle.mk ((← IO.currentDir) / p.lock) .write).toBaseIO with
    | .error _ => return none
    | .ok handle => do
      handle.lock
      return some handle

/-- Shows a line of the log to the user. -/
def showLine (line : LogLine) : IO Unit := IO.eprintln s!"[{line.level.display}] {line.text}"

/-- Runs the program. Taking the lock has already done to the lock file what a run does to it. -/
def run (words : List String) : IO UInt32 := do
  let surroundings ← surroundingsOfRun
  let paths := Paths.of? surroundings words
  let lock ← lockCache paths
  let before ← picture surroundings paths
  let (ending, w) := CommandLine.finish surroundings words { env := before }
  let lockPlace := if lock.isSome then paths.map fun p => placeOf surroundings p.lock else none
  ((before.changesTo w.env).filter fun change => some change.place ≠ lockPlace).forM carryOut
  lock.forM fun handle => handle.unlock
  w.log.forM showLine
  IO.print ending.output
  return ending.status.toUInt32

end ArtifactResolver.Program

/-- The program. -/
def main (words : List String) : IO UInt32 := ArtifactResolver.Program.run words
