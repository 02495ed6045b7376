import ArtifactResolver.Text.Case
import ArtifactResolver.Text.Decimal
import ArtifactResolver.Word

/-!
# Paths of variables

The name of an environment variable is a path into a tree of tables and lists. After the common
start `ARTIFETCH_`, every underscore or point leads to a name in a table, and a number in brackets
to a place in a list: `ARTIFETCH_TRUST[0]` leads to the first item of the list `trust`. Case does
not matter.
-/

namespace ArtifactResolver.Variable

/-- A step into the tree. -/
inductive Step where
  /-- To the entry of a table with a name. -/
  | key (name : String)
  /-- To a place in a list, counted from zero, or below zero from the end. -/
  | index (i : Int)
deriving DecidableEq, Repr

/-- What the names of the variables start with, in lower case. -/
def nameStart : List Char := "artifetch_".toList

/-- A character that a name in a table can hold. -/
def isNameChar (c : Char) : Bool := c.isAlphanum || c == '-'

/-- A character that can stand around a number in brackets. -/
def isPadding (c : Char) : Bool := c == ' ' || c == '\t'

/-- Reads what stands between brackets: a number that fits into a word, with blanks around it. -/
def index? (cs : List Char) : Option Int :=
  let digitsOf (text : List Char) : Option Nat :=
    if (text.dropWhile Text.isDigit).all isPadding then Text.decimal? (text.takeWhile Text.isDigit)
    else none
  match cs.dropWhile isPadding with
  | '-' :: text => (digitsOf text).bind fun n => Word.signed? (-(n : Int))
  | text => (digitsOf text).bind fun n => Word.signed? n

/-- Reads an opening bracket and a number. -/
def subscript? : List Char → Option Step
  | '[' :: cs => (index? cs).map .index
  | _ => none

/-- Reads a name and the numbers in brackets behind it. -/
def steps? (cs : List Char) : Option (List Step) :=
  let name := cs.takeWhile isNameChar
  let pieces := (cs.dropWhile isNameChar).splitOn ']'
  if name.isEmpty || pieces.getLast? ≠ some [] then none
  else (pieces.dropLast.mapM subscript?).map (.key (String.ofList name) :: ·)

/-- The path that the name of a variable is, none if it is not one. -/
def path? (name : String) : Option (List Step) :=
  let lower := name.toList.map Text.lower
  if nameStart.isPrefixOf lower then
    let parts := ((lower.drop nameStart.length).map fun c => if c = '_' then '.' else c).splitOn '.'
    (parts.mapM steps?).map List.flatten
  else none

end ArtifactResolver.Variable
