import ArtifactResolver.Text.Decimal
import ArtifactResolver.Text.Hex
import ArtifactResolver.Toml.Scan
import ArtifactResolver.Word

/-!
# Numbers

Whole numbers in four bases, which have to fit into 64 bits with a sign, and numbers with a fraction
or an exponent, of which only the form and the magnitude matter. Between two digits an underscore
may stand.
-/

namespace ArtifactResolver.Toml

/-- The digits of a run without the underscores between them. Every underscore stands between two
digits, and there is one digit at least. -/
def digitRun? (isDigit : Char → Bool) (cs : List Char) : Option (List Char) :=
  let groups := cs.splitOn '_'
  if groups.all fun group => !group.isEmpty && group.all isDigit then some groups.flatten else none

/-- The digits of a run without needless zeros in front. -/
def wholeDigits? (cs : List Char) : Option (List Char) := do
  let digits ← digitRun? Text.isDigit cs
  if digits.length ≤ 1 || digits.head? != some '0' then some digits else none

/-- Whether a number is negative, and its text without the sign. -/
def splitSign : List Char → Bool × List Char
  | '-' :: rest => (true, rest)
  | '+' :: rest => (false, rest)
  | cs => (false, cs)

/-- The value of a run of digits in a base of at most sixteen, if they all are of that base. -/
def valueInBase? (base : Nat) (digits : List Char) : Option Nat :=
  digits.foldlM (fun value c => do
    let digit ← Text.hexValue? c
    if digit < base then some (value * base + digit) else none) 0

/-- The value of a run of digits, underscores included, in a base other than ten. -/
def inBase? (base : Nat) (cs : List Char) : Option Int := do
  let digits ← digitRun? (fun c => (Text.hexValue? c).isSome) cs
  Word.signed? (← valueInBase? base digits)

/-- Reads a whole number. Only a decimal one may have a sign. -/
def integer? (cs : List Char) : Option Int :=
  match cs with
  | '0' :: 'x' :: digits => inBase? 16 digits
  | '0' :: 'o' :: digits => inBase? 8 digits
  | '0' :: 'b' :: digits => inBase? 2 digits
  | _ => do
    let (negative, rest) := splitSign cs
    let magnitude := Text.decimalValue (← wholeDigits? rest)
    Word.signed? (if negative then -(magnitude : Int) else magnitude)

/-- The least magnitude that rounds to infinity in double precision. -/
def overflowMagnitude : Nat := (Nat.pow 2 54 - 1) * Nat.pow 2 970

/-- Whether `mantissa * 10 ^ exponent` rounds to infinity. A magnitude of fewer than 300 digits
never does and one of more than 320 always does, so that only those between have to be computed. -/
def overflows (mantissa : Nat) (exponent : Int) : Bool :=
  let digits : Int := (Nat.toDigits 10 mantissa).length + exponent
  if mantissa = 0 || digits < 300 then false
  else if digits > 320 then true
  else if exponent < 0 then mantissa ≥ overflowMagnitude * Nat.pow 10 exponent.natAbs
  else mantissa * Nat.pow 10 exponent.natAbs ≥ overflowMagnitude

/-- What stands before the first character that fits, and after it; the second is none if there is
no such character. -/
def cutAt (fits : Char → Bool) (cs : List Char) : List Char × Option (List Char) :=
  match cs.span fun c => !fits c with
  | (before, []) => (before, none)
  | (before, _ :: after) => (before, some after)

/-- The digits after a point, where none at all stand for no fraction. -/
def fractionDigits? : Option (List Char) → Option (List Char)
  | none => some []
  | some cs => digitRun? Text.isDigit cs

/-- The value of an exponent, where none at all stands for zero. -/
def exponentValue? : Option (List Char) → Option Int
  | none => some 0
  | some cs => do
    let (negative, rest) := splitSign cs
    let value := Text.decimalValue (← digitRun? Text.isDigit rest)
    return if negative then -(value : Int) else value

/-- The names of the numbers that have no digits. -/
def specialNumbers : List (List Char) := ["inf".toList, "nan".toList]

/-- Whether the text is a number with a fraction or an exponent, or a special one. A positive number
must not round to infinity. -/
def isFloat (cs : List Char) : Bool :=
  let (negative, body) := splitSign cs
  if specialNumbers.contains body then true
  else
    let (mantissa, exponent) := cutAt (fun c => c == 'e' || c == 'E') body
    let (whole, fraction) := cutAt (· == '.') mantissa
    match wholeDigits? whole, fractionDigits? fraction, exponentValue? exponent with
    | some wholeDigits, some digits, some e =>
      (fraction.isSome || exponent.isSome) &&
        (negative || !overflows (Text.decimalValue (wholeDigits ++ digits)) (e - digits.length))
    | _, _, _ => false

end ArtifactResolver.Toml
