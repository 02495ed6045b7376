import ArtifactResolver.Duration
import ArtifactResolver.ParseError
import ArtifactResolver.Text.Blank
import ArtifactResolver.Text.Decimal

/-!
# Resolution policies

A policy says how long a cached entry may be used before a repository is asked again. Every kind of
entry has its own trust; working offline trusts every entry of any age, and refreshing trusts none.
-/

namespace ArtifactResolver

/-- How long a cached entry may be used. -/
inductive Trust where
  /-- At any age. -/
  | always
  /-- Strictly less long than the given window. -/
  | within (window : Duration)
deriving DecidableEq, Repr

namespace Trust

/-- The trust of entries for which nothing else is configured: a day. -/
def standard : Trust := within (.ofSeconds (24 * 60 * 60))

/-- No trust at all. -/
def never : Trust := within ⟨0⟩

/-- Whether an entry of the given age may be used. -/
def isFresh : Trust → Duration → Bool
  | always, _ => true
  | within window, age => age.millis < window.millis

/-- The greatest number that a count of seconds can be. -/
def maxSeconds : Nat := Nat.pow 2 64 - 1

/-- How many seconds a unit has, none if it is not a unit. The empty unit is the second. -/
def secondsPer? (unit : List Char) : Option Nat :=
  match unit with
  | [] => some 1
  | ['s'] => some 1
  | ['m'] => some 60
  | ['h'] => some (60 * 60)
  | ['d'] => some (24 * 60 * 60)
  | _ => none

/-- Reads trust from text in lower case without blanks around it: `always`, or an amount and a unit.
An amount above the limit is refused, a product above it is cut down to the limit. -/
def ofTrimmed? (cs : List Char) : Option Trust :=
  if cs = "always".toList then some always
  else do
    let amount ← Text.decimal? (cs.takeWhile Text.isDigit)
    let perUnit ← secondsPer? (cs.dropWhile Text.isDigit)
    if amount ≤ maxSeconds then some (within (.ofSeconds (min (amount * perUnit) maxSeconds)))
    else none

/-- Reads trust; case and blanks around the text are ignored. -/
def parse (text : String) : Except ParseError Trust :=
  match ofTrimmed? ((Text.trim text.toList).map Char.toLower) with
  | some t => .ok t
  | none => .error (.invalidDuration text)

/-- The written form of trust, in whole seconds. -/
def display : Trust → String
  | always => "always"
  | within window => s!"{window.seconds}s"

end Trust

/-- The kinds of cached entries that have a trust of their own. -/
inductive EntryKind where
  /-- Version listings. -/
  | listing
  /-- Module descriptors. -/
  | descriptor
  /-- Artifact content and records of probes. -/
  | artifact
deriving DecidableEq, Repr

/-- The trust of each kind of entry. -/
structure Rules where
  /-- The trust of version listings, by which dependencies are chosen. -/
  dependencies : Trust := .standard
  /-- The trust of module descriptors. -/
  modules : Trust := .standard
  /-- The trust of artifact content and records of probes. -/
  artifacts : Trust := .standard
deriving DecidableEq, Repr

namespace Rules

/-- One trust for every kind of entry. -/
def uniform (t : Trust) : Rules := ⟨t, t, t⟩

/-- The trust of a kind of entry. -/
def trust (r : Rules) : EntryKind → Trust
  | .listing => r.dependencies
  | .descriptor => r.modules
  | .artifact => r.artifacts

/-- Whether an entry of the given kind and age may be used. -/
def isFresh (r : Rules) (kind : EntryKind) (age : Duration) : Bool := (r.trust kind).isFresh age

end Rules

/-- How a session treats its cache. -/
inductive Mode where
  /-- Only the cache is used. -/
  | offline
  /-- The cache is only written. -/
  | refresh
  /-- The cache is used as far as it is trusted. -/
  | cached
deriving DecidableEq, Repr

/-- The wording of a mode. -/
def Mode.display : Mode → String
  | offline => "Offline"
  | refresh => "Refresh"
  | cached => "Cached"

/-- The settings of a session, which stay the same throughout. -/
structure Policy where
  /-- Whether only the cache may be used. -/
  offline : Bool := false
  /-- Whether every entry counts as stale. -/
  refresh : Bool := false
  /-- The configured trust of each kind of entry. -/
  rules : Rules := {}
deriving DecidableEq, Repr

namespace Policy

/-- The mode of a session; working offline takes precedence over refreshing. -/
def mode (p : Policy) : Mode :=
  if p.offline then .offline else if p.refresh then .refresh else .cached

/-- The configured rules as the mode overrides them. -/
def effectiveRules (p : Policy) : Rules :=
  match p.mode with
  | .offline => .uniform .always
  | .refresh => .uniform .never
  | .cached => p.rules

/-- What there is to warn about in the settings. -/
def warning? (p : Policy) : Option String :=
  if p.offline && p.refresh then some "Ignoring refresh of dependencies in offline mode" else none

end Policy
end ArtifactResolver
