/-!
# Decimal digits

The value of a run of ASCII digits, at any length, and the comparison of such runs without it. Only
the ten ASCII digits count as digits here: the digits of other scripts are ordinary letters to every
rule of this library.
-/

namespace ArtifactResolver.Text

/-- One of the ten ASCII digits. -/
def isDigit (c : Char) : Bool := '0'.toNat ≤ c.toNat && c.toNat ≤ '9'.toNat

/-- The number that an ASCII digit stands for. -/
def digitValue (c : Char) : Nat := c.toNat - '0'.toNat

/-- The number that a run of ASCII digits stands for, leading zeros included. -/
def decimalValue (digits : List Char) : Nat :=
  digits.foldl (fun value digit => 10 * value + digitValue digit) 0

/-- Reads a non-empty run of ASCII digits and nothing else. -/
def decimal? (cs : List Char) : Option Nat :=
  if cs.isEmpty || !cs.all isDigit then none else some (decimalValue cs)

/-- The digits behind the leading zeros. -/
def significant (digits : List Char) : List Char := digits.dropWhile (· == '0')

/-- Compares runs of ASCII digits as numbers of any length: leading zeros do not count, of the
digits behind them the longer run is the greater one, and runs of one length compare as text. -/
def compareDigits (a b : List Char) : Ordering :=
  (compare (significant a).length (significant b).length).then
    (compare (significant a) (significant b))

/-- No digits stand for zero. -/
@[simp] theorem decimalValue_nil : decimalValue [] = 0 := rfl

/-- A leading zero changes nothing. -/
theorem decimalValue_zero_cons (digits : List Char) :
    decimalValue ('0' :: digits) = decimalValue digits := rfl

end ArtifactResolver.Text
