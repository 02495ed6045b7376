/-!
# Case

Names in which case does not matter are compared in lower case. All of them are made of ASCII
characters, so only the characters count whose lower case is one of those.
-/

namespace ArtifactResolver.Text

/-- The lower case of a character if it is an ASCII character, and the character itself otherwise.
The Kelvin sign is the only character beyond ASCII whose lower case is an ASCII character. -/
def lower (c : Char) : Char := if c = '\u212A' then 'k' else c.toLower

end ArtifactResolver.Text
