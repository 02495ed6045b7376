import ArtifactResolver.Text.Utf8

/-!
# Hexadecimal text

Bytes as text with two digits for each of them.
-/

namespace ArtifactResolver.Text

/-- The value of a hexadecimal digit of either case. -/
def hexValue? (c : Char) : Option Nat :=
  if '0' ≤ c && c ≤ '9' then some (c.toNat - '0'.toNat)
  else if 'a' ≤ c && c ≤ 'f' then some (c.toNat - 'a'.toNat + 10)
  else if 'A' ≤ c && c ≤ 'F' then some (c.toNat - 'A'.toNat + 10)
  else none

/-- The digit of a number below sixteen, in upper case. -/
def hexDigit (n : Nat) : Char :=
  if n < 10 then Char.ofNat ('0'.toNat + n) else Char.ofNat ('A'.toNat + (n - 10))

/-- The bytes that pairs of digits stand for, up to the first pair that is none. -/
def bytesOfHex : List Char → Bytes
  | a :: b :: rest =>
    match hexValue? a, hexValue? b with
    | some high, some low => UInt8.ofNat (high * 16 + low) :: bytesOfHex rest
    | _, _ => []
  | _ => []

/-- The digits of bytes, in lower case. -/
def hexOfBytes (bytes : Bytes) : String :=
  String.ofList <| bytes.flatMap fun b =>
    [Nat.digitChar (b.toNat / 16), Nat.digitChar (b.toNat % 16)]

end ArtifactResolver.Text
