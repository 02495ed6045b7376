/-!
# Scanning

The smallest parts of a TOML document: character classes, and what may stand between the parts that
mean something. A scanner takes characters from the front of the text and gives what they stand for
together with the rest, or nothing if the front of the text does not fit.
-/

namespace ArtifactResolver.Toml

/-- Reads the front of a text. -/
abbrev Scan (α : Type) := List Char → Option (α × List Char)

/-- A blank within a line. -/
def isSpace (c : Char) : Bool := c == ' ' || c == '\t'

/-- A character that text within a line can hold: a tab, or any that is not a control character. -/
def isInline (c : Char) : Bool :=
  c == '\t' || (0x20 ≤ c.toNat && c.toNat ≤ 0x7E) || 0x80 ≤ c.toNat

/-- A character of a key without quotes. -/
def isBare (c : Char) : Bool := c.isAlphanum || c == '_' || c == '-'

/-- The text after the blanks that it starts with. -/
def skipSpace (cs : List Char) : List Char := cs.dropWhile isSpace

/-- The text after an end of line, where the end of the text is one too. -/
def endOfLine? : List Char → Option (List Char)
  | [] => some []
  | '\n' :: rest => some rest
  | '\r' :: '\n' :: rest => some rest
  | _ => none

/-- The text after the blanks and the comment that a line may end with, and after its end. -/
def restOfLine? (cs : List Char) : Option (List Char) :=
  match skipSpace cs with
  | '#' :: rest => endOfLine? (rest.dropWhile isInline)
  | rest => endOfLine? rest

/-- The text after the blanks, ends of lines and comments that it starts with; `comment` says
whether it starts within a comment. -/
def skipTrivia? (comment : Bool) : List Char → Option (List Char)
  | [] => some []
  | c :: rest =>
    if c = '\n' then skipTrivia? false rest
    else if c = '\r' then if rest.head? = some '\n' then skipTrivia? comment rest else none
    else if comment then if isInline c then skipTrivia? true rest else none
    else if c = '#' then skipTrivia? true rest
    else if isSpace c then skipTrivia? false rest
    else some (c :: rest)

/-- Puts an item in front of the items that a scanner read. -/
def push {α : Type} (a : α) (read : Option (List α × List Char)) : Option (List α × List Char) :=
  read.map fun result => (a :: result.1, result.2)

/-- Reads items between which the given character stands. The first argument bounds their number. -/
def separated {α : Type} (separator : Char) (item : Scan α) : Nat → Scan (List α)
  | 0, _ => none
  | fuel + 1, cs =>
    match item cs with
    | none => none
    | some (a, []) => some ([a], [])
    | some (a, c :: rest) =>
      if c = separator then push a (separated separator item fuel rest)
      else some ([a], c :: rest)

end ArtifactResolver.Toml
