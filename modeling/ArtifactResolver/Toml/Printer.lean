import ArtifactResolver.Toml.Quoted

/-!
# Writing strings

A string is written in the form that needs the fewest escapes: between double quotes if nothing in
it needs one, else between single quotes if it holds none and no control character, else on several
lines in either form, and with escapes only if no other form will do.
-/

namespace ArtifactResolver.Toml

/-- A control character for which there is no place in a string without an escape. -/
def needsEscape (c : Char) : Bool := c != '\t' && c != '\n' && (c.toNat < 0x20 || c.toNat = 0x7F)

/-- The longest run of a character in a text. -/
def longestRun (c : Char) (cs : List Char) : Nat :=
  (cs.foldl (fun runs d => if d = c then (runs.1 + 1, max runs.2 (runs.1 + 1)) else (0, runs.2))
    (0, 0)).2

/-- The escape of a character by its number. -/
def escapeByNumber (c : Char) : List Char :=
  let n := c.toNat
  ['\\', 'u', Text.hexDigit (n / 4096 % 16), Text.hexDigit (n / 256 % 16),
    Text.hexDigit (n / 16 % 16), Text.hexDigit (n % 16)]

/-- The escape of a character other than a quote or an end of line, none if it needs none. -/
def escape? (c : Char) : Option (List Char) :=
  if c = '\x08' then some ['\\', 'b']
  else if c = '\t' then some ['\\', 't']
  else if c = '\x0c' then some ['\\', 'f']
  else if c = '\r' then some ['\\', 'r']
  else if c = '\\' then some ['\\', '\\']
  else if needsEscape c then some (escapeByNumber c)
  else none

/-- The text of a string of one line between double quotes. -/
def writeBasic : List Char → List Char
  | [] => []
  | c :: rest =>
    (if c = '"' then ['\\', '"'] else if c = '\n' then ['\\', 'n'] else (escape? c).getD [c]) ++
      writeBasic rest

/-- The text of a string of several lines between double quotes, after the given number of quotes
without an escape. Three quotes in a row would end the string, so the third is escaped. -/
def writeBasicLines : Nat → List Char → List Char
  | _, [] => []
  | quotes, c :: rest =>
    if c = '"' then
      if quotes < 2 then '"' :: writeBasicLines (quotes + 1) rest
      else '\\' :: '"' :: writeBasicLines 0 rest
    else if c = '\n' then '\n' :: writeBasicLines 0 rest
    else (escape? c).getD [c] ++ writeBasicLines 0 rest

/-- The forms in which a string can be written. -/
inductive Form where
  /-- Between double quotes. -/
  | basic
  /-- Between single quotes. -/
  | literal
  /-- On several lines between three double quotes. -/
  | basicLines
  /-- On several lines between three single quotes. -/
  | literalLines
deriving DecidableEq, Repr

/-- The form in which a string is written. -/
def formOf (cs : List Char) : Form :=
  let coded := cs.any needsEscape
  let hasLine := cs.contains '\n'
  if !(cs.contains '"' || cs.contains '\\' || coded || hasLine) then .basic
  else if !(cs.contains '\'' || coded || hasLine) then .literal
  else if !(cs.contains '\\' || coded || longestRun '"' cs > 2) then .basicLines
  else if !(coded || longestRun '\'' cs > 2) then .literalLines
  else if hasLine then .basicLines else .basic

/-- What stands between three opening quotes and the string: an end of line if there is one in the
string, so that all its lines start alike. -/
def linesStart (cs : List Char) : List Char := if cs.contains '\n' then ['\n'] else []

/-- The written form of a string. -/
def writeString (cs : List Char) : List Char :=
  match formOf cs with
  | .basic => '"' :: writeBasic cs ++ ['"']
  | .literal => '\'' :: cs ++ ['\'']
  | .basicLines => ['"', '"', '"'] ++ linesStart cs ++ writeBasicLines 0 cs ++ ['"', '"', '"']
  | .literalLines => ['\'', '\'', '\''] ++ linesStart cs ++ cs ++ ['\'', '\'', '\'']

/-- A line that assigns text to a key. -/
def writeField (key text : String) : List Char :=
  key.toList ++ " = ".toList ++ writeString text.toList ++ ['\n']

end ArtifactResolver.Toml
