/-!
# Words

Whole numbers that fit into a word of 64 bits, with a sign or without one.
-/

namespace ArtifactResolver.Word

/-- The number of values that a word has on either side of zero. -/
def half : Nat := Nat.pow 2 63

/-- A number that fits into a word with a sign. -/
def signed? (n : Int) : Option Int :=
  if -(half : Int) ≤ n && n < (half : Int) then some n else none

/-- A number that fits into a word without a sign. -/
def unsigned? (n : Nat) : Option Nat := if n < 2 * half then some n else none

end ArtifactResolver.Word
