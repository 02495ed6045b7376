import ArtifactResolver.Toml.Datetime
import ArtifactResolver.Toml.Number
import ArtifactResolver.Toml.Quoted
import ArtifactResolver.Toml.Table

/-!
# Values and statements

A document is a sequence of statements, one a line: the header of a table, the header of an element
of an array of tables, or the assignment of a value to a key. This module reads the text of a
document into its statements; what they make up together is the subject of
`ArtifactResolver.Toml.Document`.
-/

namespace ArtifactResolver.Toml

/-- The greatest number of keys of a path, and of arrays and inline tables within each other. -/
def nestingLimit : Nat := 79

/-- Reads a key with blanks around it. -/
def scanSpacedKey (cs : List Char) : Option (String × List Char) :=
  (scanSimpleKey? (skipSpace cs)).map fun result => (result.1, skipSpace result.2)

/-- Reads a path: keys with points between them. -/
def scanPath (cs : List Char) : Option (List String × List Char) := do
  let (path, rest) ← separated '.' scanSpacedKey (cs.length + 1) cs
  if path.length ≤ nestingLimit then some (path, rest) else none

/-- A character of a number, a date or a name of a value. -/
def isTokenChar (c : Char) : Bool :=
  c.isAlphanum || c == '_' || c == '+' || c == '-' || c == '.' || c == ':'

/-- Whether a blank and a time follow, which makes them part of the date before them. -/
def timeFollows : List Char → Bool
  | ' ' :: a :: b :: ':' :: _ => Text.isDigit a && Text.isDigit b
  | _ => false

/-- What a text without quotes and brackets stands for. -/
def scalar? (token : List Char) : Option Value :=
  if token = "true".toList then some (.boolean true)
  else if token = "false".toList then some (.boolean false)
  else match integer? token with
  | some n => some (.integer n)
  | none =>
    if isFloat token then some (.float (String.ofList token))
    else if isDatetime token then some (.datetime (String.ofList token))
    else none

/-- Reads a value without quotes and brackets. -/
def scanScalar (cs : List Char) : Option (Value × List Char) :=
  let token := cs.takeWhile isTokenChar
  let rest := cs.dropWhile isTokenChar
  if isDate token && timeFollows rest then
    let time := rest.tail.takeWhile isTokenChar
    (scalar? (token ++ ' ' :: time)).map fun v => (v, rest.tail.dropWhile isTokenChar)
  else (scalar? token).map fun v => (v, rest)

/-- Reads the items of an array after its opening bracket. Ends of lines and comments may stand
anywhere between them, and a comma after the last one. -/
def scanItems (item : Scan Value) : Nat → Scan (List Value)
  | 0, _ => none
  | fuel + 1, cs =>
    match skipTrivia? false cs with
    | none => none
    | some (']' :: rest) => some ([], rest)
    | some front =>
      match item front with
      | none => none
      | some (v, rest) =>
        match skipTrivia? false rest with
        | some (',' :: rest) => push v (scanItems item fuel rest)
        | some (']' :: rest) => some ([v], rest)
        | _ => none

/-- Reads a path, the sign between it and a value, and the value. -/
def scanAssignment (item : Scan Value) (cs : List Char) :
    Option ((List String × Value) × List Char) := do
  let (path, rest) ← scanPath cs
  let rest ← after? '=' rest
  let (v, rest) ← item (skipSpace rest)
  return ((path, v), rest)

/-- Reads an assignment with blanks behind it. -/
def scanSpacedAssignment (item : Scan Value) (cs : List Char) :
    Option ((List String × Value) × List Char) :=
  (scanAssignment item cs).map fun result => (result.1, skipSpace result.2)

/-- Reads an inline table after its opening brace: assignments with commas between them, on one
line. -/
def scanInline (item : Scan Value) (cs : List Char) : Option (Value × List Char) :=
  match skipSpace cs with
  | '}' :: rest => some (.table [], rest)
  | front => do
    let (assignments, rest) ← separated ',' (scanSpacedAssignment item) (front.length + 1) front
    let rest ← after? '}' rest
    let entries ← ofAssignments? assignments
    return (.table entries, rest)

/-- Reads a value in which at most the given number of arrays and inline tables stand within each
other. -/
def scanValue : Nat → Scan Value
  | 0, cs =>
    match scanString? cs with
    | some (text, rest) => some (.string text, rest)
    | none => scanScalar cs
  | depth + 1, cs =>
    match cs with
    | '[' :: rest =>
      (scanItems (scanValue depth) (rest.length + 1) rest).map fun result =>
        (.array result.1, result.2)
    | '{' :: rest => scanInline (scanValue depth) rest
    | _ =>
      match scanString? cs with
      | some (text, rest) => some (.string text, rest)
      | none => scanScalar cs

/-- Reads a statement. -/
def scanStatement (cs : List Char) : Option (Statement × List Char) :=
  match cs with
  | '[' :: '[' :: rest => do
    let (path, rest) ← scanPath rest
    let rest ← after? ']' (← after? ']' rest)
    return (.element path, rest)
  | '[' :: rest => do
    let (path, rest) ← scanPath rest
    let rest ← after? ']' rest
    return (.header path, rest)
  | _ => do
    let ((path, v), rest) ← scanAssignment (scanValue nestingLimit) cs
    return (.assign path v, rest)

/-- Reads the statements of a text. The first argument bounds their number. -/
def scanStatements : Nat → List Char → Option (List Statement)
  | 0, _ => none
  | fuel + 1, cs =>
    match skipTrivia? false cs with
    | none => none
    | some [] => some []
    | some front => do
      let (s, rest) ← scanStatement front
      let rest ← restOfLine? rest
      return s :: (← scanStatements fuel rest)

/-- The text without the mark of byte order that it may start with. -/
def dropByteOrderMark : List Char → List Char
  | c :: rest => if c.toNat = 0xFEFF then rest else c :: rest
  | [] => []

/-- The statements of a text, none if it is not a document. -/
def statements? (cs : List Char) : Option (List Statement) :=
  scanStatements (cs.length + 1) (dropByteOrderMark cs)

end ArtifactResolver.Toml
