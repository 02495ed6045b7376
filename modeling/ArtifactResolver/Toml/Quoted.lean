import ArtifactResolver.Text.Hex
import ArtifactResolver.Toml.Scan

/-!
# Quoted strings

The four forms of a TOML string: between double quotes, where a backslash starts an escape, or
between single quotes, where it does not, and each of them on one line or, between three quotes, on
several. Every scanner here starts after the opening quotes and reads one character at a time,
together with a mode that says what the characters before it ask for.
-/

namespace ArtifactResolver.Toml

/-- The character that an escape of one letter stands for. -/
def escaped? (c : Char) : Option Char :=
  match c with
  | 'b' => some '\x08'
  | 't' => some '\t'
  | 'n' => some '\n'
  | 'f' => some '\x0c'
  | 'r' => some '\r'
  | '"' => some '"'
  | '\\' => some '\\'
  | _ => none

/-- The number of digits that an escape by number has. -/
def escapeDigits? (c : Char) : Option Nat :=
  if c = 'u' then some 4 else if c = 'U' then some 8 else none

/-- The character with the given number, none if there is no such character. -/
def charOfNat? (n : Nat) : Option Char :=
  if n.isValidChar then some (Char.ofNat n) else none

/-- What the characters before the next one ask for, in a string with escapes. -/
inductive Mode where
  /-- Nothing in particular. -/
  | plain
  /-- The next character is the first of an escape. -/
  | escape
  /-- The given number of digits are to come, after digits of the given value. -/
  | digits (count value : Nat)
  /-- The line is to end, and the end does not count. -/
  | fold
  /-- Blanks and ends of lines do not count. -/
  | folded

/-- The mode after one more digit of an escape by number, and the character if it was the last. -/
def afterDigit? (count value : Nat) (c : Char) : Option (Mode × List Char) := do
  let value := value * 16 + (← Text.hexValue? c)
  if count ≤ 1 then return (.plain, [← charOfNat? value])
  else return (.digits (count - 1) value, [])

/-- The mode after the first character of an escape, and the character that it stands for if the
escape ends with it. -/
def afterEscape? (c : Char) : Option (Mode × List Char) :=
  match escaped? c, escapeDigits? c with
  | some d, _ => some (.plain, [d])
  | none, some count => some (.digits count 0, [])
  | none, none => none

/-- Puts characters in front of those that a scanner read. -/
def pushAll (front : List Char) (read : Option (List Char × List Char)) :
    Option (List Char × List Char) :=
  read.map fun result => (front ++ result.1, result.2)

/-- Reads a string of one line with escapes. -/
def scanBasic (mode : Mode) : Scan (List Char)
  | [] => none
  | c :: rest =>
    match mode with
    | .escape => do
      let (mode, chars) ← afterEscape? c
      pushAll chars (scanBasic mode rest)
    | .digits count value => do
      let (mode, chars) ← afterDigit? count value c
      pushAll chars (scanBasic mode rest)
    | _ =>
      if c = '"' then some ([], rest)
      else if c = '\\' then scanBasic .escape rest
      else if isInline c then push c (scanBasic .plain rest)
      else none

/-- How many quotes before the closing three belong to the string, if the text starts with at least
three: as many as there are beyond three, but two at most. -/
def closing? (quote : Char) (cs : List Char) : Option Nat :=
  let count := (cs.takeWhile (· == quote)).length
  if count < 3 then none else some (min (count - 3) 2)

/-- Reads a string of several lines with escapes. -/
def scanBasicLines (mode : Mode) : Scan (List Char)
  | [] => none
  | c :: rest =>
    match mode with
    | .escape =>
      if isSpace c then scanBasicLines .fold rest
      else if c = '\n' then scanBasicLines .folded rest
      else if c = '\r' then
        if rest.head? = some '\n' then scanBasicLines .fold rest else none
      else do
        let (mode, chars) ← afterEscape? c
        pushAll chars (scanBasicLines mode rest)
    | .digits count value => do
      let (mode, chars) ← afterDigit? count value c
      pushAll chars (scanBasicLines mode rest)
    | .fold =>
      if isSpace c then scanBasicLines .fold rest
      else if c = '\n' then scanBasicLines .folded rest
      else if c = '\r' then
        if rest.head? = some '\n' then scanBasicLines .fold rest else none
      else none
    | mode =>
      if c = '\r' then if rest.head? = some '\n' then scanBasicLines mode rest else none
      else if c = '\n' then
        match mode with
        | .folded => scanBasicLines .folded rest
        | _ => push c (scanBasicLines .plain rest)
      else if (mode matches .folded) && isSpace c then scanBasicLines .folded rest
      else if c = '"' then
        match closing? '"' (c :: rest) with
        | some extra => some (List.replicate extra '"', rest.drop (extra + 2))
        | none => push c (scanBasicLines .plain rest)
      else if c = '\\' then scanBasicLines .escape rest
      else if isInline c then push c (scanBasicLines .plain rest)
      else none

/-- Reads a string of one line without escapes. -/
def scanLiteral : Scan (List Char)
  | [] => none
  | c :: rest =>
    if c = '\'' then some ([], rest)
    else if isInline c then push c (scanLiteral rest)
    else none

/-- Reads a string of several lines without escapes. -/
def scanLiteralLines : Scan (List Char)
  | [] => none
  | c :: rest =>
    if c = '\r' then if rest.head? = some '\n' then scanLiteralLines rest else none
    else if c = '\'' then
      match closing? '\'' (c :: rest) with
      | some extra => some (List.replicate extra '\'', rest.drop (extra + 2))
      | none => push c (scanLiteralLines rest)
    else if c = '\n' || isInline c then push c (scanLiteralLines rest)
    else none

/-- The text after an end of line that it starts with, if it does. -/
def dropLineEnd : List Char → List Char
  | '\n' :: rest => rest
  | '\r' :: '\n' :: rest => rest
  | cs => cs

/-- Reads a string in any of its forms, quotes included. An end of line right after three opening
quotes is not part of the string. -/
def scanString? (cs : List Char) : Option (String × List Char) :=
  let read :=
    match cs with
    | '"' :: '"' :: '"' :: rest => scanBasicLines .plain (dropLineEnd rest)
    | '"' :: rest => scanBasic .plain rest
    | '\'' :: '\'' :: '\'' :: rest => scanLiteralLines (dropLineEnd rest)
    | '\'' :: rest => scanLiteral rest
    | _ => none
  read.map fun result => (String.ofList result.1, result.2)

/-- Reads a key without dots: bare, or a string of one line. -/
def scanSimpleKey? (cs : List Char) : Option (String × List Char) :=
  match cs with
  | '"' :: rest => (scanBasic .plain rest).map fun result => (String.ofList result.1, result.2)
  | '\'' :: rest => (scanLiteral rest).map fun result => (String.ofList result.1, result.2)
  | _ =>
    let bare := cs.takeWhile isBare
    if bare.isEmpty then none else some (String.ofList bare, cs.dropWhile isBare)

end ArtifactResolver.Toml
