import ArtifactResolver.Text.Decimal
import ArtifactResolver.Toml.Scan

/-!
# Dates and times

The forms of dates and times that a document may hold: a date, a time, or both, in which case an
offset may follow. Every part has to be within its range; the days of a month depend on the year.
-/

namespace ArtifactResolver.Toml

/-- Reads exactly the given number of digits. -/
def scanDigits? (count : Nat) (cs : List Char) : Option (Nat × List Char) := do
  let value ← Text.decimal? (cs.take count)
  if (cs.take count).length = count then some (value, cs.drop count) else none

/-- The text after a character that it has to start with. -/
def after? (c : Char) : List Char → Option (List Char)
  | d :: rest => if d = c then some rest else none
  | [] => none

/-- Whether February of the year has 29 days. -/
def isLeapYear (year : Nat) : Bool := year % 4 == 0 && (year % 100 != 0 || year % 400 == 0)

/-- The number of days of a month. -/
def daysOf (year month : Nat) : Nat :=
  if month = 2 then if isLeapYear year then 29 else 28
  else if month ∈ [4, 6, 9, 11] then 30
  else 31

/-- The text after the date that it has to start with. -/
def skipDate? (cs : List Char) : Option (List Char) := do
  let (year, rest) ← scanDigits? 4 cs
  let (month, rest) ← scanDigits? 2 (← after? '-' rest)
  let (day, rest) ← scanDigits? 2 (← after? '-' rest)
  if 1 ≤ month && month ≤ 12 && 1 ≤ day && day ≤ daysOf year month then some rest else none

/-- The text after a fraction of a second, if it starts with one. -/
def skipFraction? : List Char → Option (List Char)
  | '.' :: rest =>
    if (rest.takeWhile Text.isDigit).isEmpty then none else some (rest.dropWhile Text.isDigit)
  | cs => some cs

/-- The text after the time that it has to start with. The second may be a leap second. -/
def skipTime? (cs : List Char) : Option (List Char) := do
  let (hour, rest) ← scanDigits? 2 cs
  let (minute, rest) ← scanDigits? 2 (← after? ':' rest)
  let (second, rest) ← scanDigits? 2 (← after? ':' rest)
  if hour ≤ 23 && minute ≤ 59 && second ≤ 60 then skipFraction? rest else none

/-- Whether the text is an offset from universal time. -/
def isOffset (cs : List Char) : Bool :=
  match cs with
  | ['Z'] => true
  | ['z'] => true
  | sign :: rest =>
    match (do
      let (hour, rest) ← scanDigits? 2 rest
      let (minute, rest) ← scanDigits? 2 (← after? ':' rest)
      return (hour, minute, rest) : Option (Nat × Nat × List Char)) with
    | some (hour, minute, []) => (sign == '+' || sign == '-') && hour ≤ 23 && minute ≤ 59
    | _ => false
  | [] => false

/-- Whether the text is a time. -/
def isTime (cs : List Char) : Bool := skipTime? cs == some []

/-- Whether the text is a time that an offset may follow. -/
def isTimeWithOffset (cs : List Char) : Bool :=
  match skipTime? cs with
  | some [] => true
  | some rest => isOffset rest
  | none => false

/-- Whether the text is a date. -/
def isDate (cs : List Char) : Bool := skipDate? cs == some []

/-- A character between a date and a time. -/
def isDateTimeSeparator (c : Char) : Bool := c == 'T' || c == 't' || c == ' '

/-- Whether the text is a date, a time, or a date and a time. -/
def isDatetime (cs : List Char) : Bool :=
  isTime cs ||
    match skipDate? cs with
    | some [] => true
    | some (c :: rest) => isDateTimeSeparator c && isTimeWithOffset rest
    | none => false

end ArtifactResolver.Toml
