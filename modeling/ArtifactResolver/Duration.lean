/-!
# Durations

Spans of time in whole milliseconds, which is the grain of every duration that the library is given.
-/

namespace ArtifactResolver

/-- A span of time. -/
structure Duration where
  /-- Its length in milliseconds. -/
  millis : Nat
deriving DecidableEq, Repr, Inhabited

namespace Duration

/-- The span of a number of seconds. -/
def ofSeconds (seconds : Nat) : Duration := ⟨seconds * 1000⟩

/-- The number of whole seconds in a span. -/
def seconds (d : Duration) : Nat := d.millis / 1000

/-- The fraction of a second that a number of milliseconds below a thousand is: a point and up to
three digits, without zeros at the end, and nothing for no milliseconds. -/
def fraction (millis : Nat) : String :=
  if millis % 1000 = 0 then ""
  else if millis % 100 = 0 then s!".{millis / 100}"
  else if millis % 10 = 0 then s!".{millis / 100}{millis / 10 % 10}"
  else s!".{millis / 100}{millis / 10 % 10}{millis % 10}"

/-- The span in the largest of the units second and millisecond of which it has one at least: `60s`,
`1.5s`, `40ms`; no time at all is `0ns`. -/
def display (d : Duration) : String :=
  if d.millis = 0 then "0ns"
  else if d.millis < 1000 then s!"{d.millis}ms"
  else s!"{d.seconds}{fraction (d.millis % 1000)}s"

end Duration
end ArtifactResolver
