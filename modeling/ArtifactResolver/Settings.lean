import ArtifactResolver.Policy
import ArtifactResolver.Variable.Node

/-!
# Settings

The settings that a user keeps in environment variables. They come in three groups, each of which is
a table with the settings by their names, or a list with all of them in their order. Any group and
any setting may be left out, but a list has to be long enough for its group.
-/

namespace ArtifactResolver

open Variable (Node)

/-- The settings of a user. -/
structure Settings where
  /-- The directory of the cache, if set. -/
  cacheDirectory : Option String := none
  /-- Whether to use the cache only. -/
  offline : Bool := false
  /-- Whether to count every entry as stale. -/
  refresh : Bool := false
  /-- How long entries are trusted. -/
  rules : Rules := {}
deriving DecidableEq, Repr

/-- Why settings are refused. -/
inductive SettingsError where
  /-- A table or a list stands in the place of a value, a value in that of a group, a list is too
  short for its group, or a value is not one of the two truth values. -/
  | malformed
  /-- A trust duration cannot be read. -/
  | badTrust (cause : ParseError)
deriving DecidableEq, Repr

namespace Settings

/-- The group with a name, which has the given number of settings. -/
def group (root : Node) (name : String) (size : Nat) : Except SettingsError Node :=
  match root.entry name with
  | .text _ => .error .malformed
  | .list items => if items.length < size then .error .malformed else .ok (.list items)
  | n => .ok n

/-- The setting of a group that has a name, or a place among its settings. -/
def setting (group : Node) (name : String) (place : Nat) : Node :=
  match group with
  | .list items => items.getD place .unset
  | n => n.entry name

/-- The value of a setting, none if it is not set. -/
def value? : Node → Except SettingsError (Option String)
  | .unset => .ok none
  | .text value => .ok (some value)
  | _ => .error .malformed

/-- Reads a truth value. -/
def truth? (text : String) : Option Bool :=
  let lower := String.ofList (text.toList.map Text.lower)
  if lower ∈ ["1", "true", "on", "yes"] then some true
  else if lower ∈ ["0", "false", "off", "no"] then some false
  else none

/-- The truth value of a setting, false if it is not set. -/
def flag (n : Node) : Except SettingsError Bool := do
  match ← value? n with
  | none => return false
  | some text =>
    match truth? text with
    | some truth => return truth
    | none => throw .malformed

/-- The trust that a text gives, the standard one if there is none. -/
def trust (text : Option String) : Except SettingsError Trust :=
  match text with
  | none => .ok .standard
  | some text => (Trust.parse text).mapError .badTrust

/-- Reads the settings. The shape of all of them is checked before any duration is read. -/
def ofNode (root : Node) : Except SettingsError Settings := do
  let cacheGroup ← group root "cache" 1
  let resolutionGroup ← group root "resolution" 2
  let trustGroup ← group root "trust" 3
  let cacheDirectory ← value? (setting cacheGroup "dir" 0)
  let offline ← flag (setting resolutionGroup "offline" 0)
  let refresh ← flag (setting resolutionGroup "refresh" 1)
  let dependencies ← value? (setting trustGroup "dependencies" 0)
  let modules ← value? (setting trustGroup "modules" 1)
  let artifacts ← value? (setting trustGroup "artifacts" 2)
  let rules := ⟨← trust dependencies, ← trust modules, ← trust artifacts⟩
  return { cacheDirectory, offline, refresh, rules }

/-- The settings in an environment. -/
def ofEnvironment (environment : List (String × String)) :
    Except Panic (Except SettingsError Settings) :=
  (Node.ofEnvironment environment).map ofNode

end Settings
end ArtifactResolver
