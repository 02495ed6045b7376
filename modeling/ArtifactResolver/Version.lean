import ArtifactResolver.Ascending
import ArtifactResolver.Text.Decimal

/-!
# Versions

A version is any text. Its order is aware of releases: the text is cut into parts, parts are
compared in turn, and an end of the version stands between text and numbers, so that
`1.0-rc1 < 1.0 < 1.0.1`. Two versions with the same parts are told apart by their text, which makes
the order total on texts.
-/

namespace ArtifactResolver

/-- The version of a module. -/
structure Version where
  /-- The version as it is written. -/
  text : String
deriving DecidableEq, Repr, Inhabited

namespace Version

/-- A character between two parts, which belongs to neither. -/
def isSeparator (c : Char) : Bool := c == '.' || c == '-' || c == '_' || c == '+'

/-- A part of a version: a run of characters between two places at which the version is cut. -/
inductive Part where
  /-- A run of digits, compared by the number that it stands for. -/
  | number (digits : List Char)
  /-- A run of characters that are neither digits nor separators, compared as text. -/
  | word (letters : List Char)
deriving DecidableEq, Repr

namespace Part

/-- The characters of the part as they stand in the version. -/
def chars : Part → List Char
  | number digits => digits
  | word letters => letters

/-- Whether the part is a run of digits. -/
def isNumber : Part → Bool
  | number _ => true
  | word _ => false

/-- The part that starts with a character. -/
def start (c : Char) : Part := if Text.isDigit c then number [c] else word [c]

/-- The part with one more character at its end. -/
def push (c : Char) : Part → Part
  | number digits => number (digits ++ [c])
  | word letters => word (letters ++ [c])

/-- Numbers compare by their digits, words by their characters, and every number is greater than
every word. -/
instance : Ord Part where
  compare
    | number a, number b => Text.compareDigits a b
    | word a, word b => compare a b
    | number _, word _ => .gt
    | word _, number _ => .lt

end Part

/-- How far a version has been read. -/
structure Reading where
  /-- The parts that are complete, from left to right. -/
  parts : List Part := []
  /-- The part that is being read, none at the start and behind a separator. -/
  current : Option Part := none
deriving DecidableEq, Repr

namespace Reading

/-- Completes the part that is being read. -/
def close (r : Reading) : Reading := { parts := r.parts ++ r.current.toList }

/-- Reads one more character. A separator completes the part in front of it, and so does a change
between digits and other characters, which starts another part. -/
def step (r : Reading) (c : Char) : Reading :=
  if isSeparator c then r.close
  else match r.current with
    | none => { r with current := some (.start c) }
    | some part =>
      if Text.isDigit c = part.isNumber then { r with current := some (part.push c) }
      else { r.close with current := some (.start c) }

end Reading

/-- The parts of a text, from left to right. -/
def partsOf (cs : List Char) : List Part := (cs.foldl Reading.step {}).close.parts

/-- The parts of a version, from left to right. -/
def parts (v : Version) : List Part := partsOf v.text.toList

/-- Compares two sequences of parts position by position. Where one of them ends, a further number
makes the longer one greater and a further word makes it less. -/
def compareParts : List Part → List Part → Ordering
  | [], [] => .eq
  | [], b :: _ => if b.isNumber then .lt else .gt
  | a :: _, [] => if a.isNumber then .gt else .lt
  | a :: as, b :: bs => (compare a b).then (compareParts as bs)

/-- Versions compare by their parts, and versions with equal parts by their text. -/
instance : Ord Version where
  compare a b := (compareParts a.parts b.parts).then (compare a.text b.text)

end Version
end ArtifactResolver
