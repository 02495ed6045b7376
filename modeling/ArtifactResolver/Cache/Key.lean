import ArtifactResolver.Artifact
import ArtifactResolver.Selector
import ArtifactResolver.Text.Hex

/-!
# Cache keys

A key names an entry of the cache. It is a sequence of segments, the first of which is the name of
the repository, and its text joins them with slashes, so that a key is also a relative path. Every
segment is escaped: it holds letters, digits and a few marks only, is never empty and never starts
with a point, so a key cannot leave the directory that it is looked up in, nor name a hidden file.
-/

namespace ArtifactResolver.Cache

/-- A character that a segment holds as it is. -/
def isPlain (c : Char) : Bool := c.isAlphanum || c == '.' || c == '-' || c == '_' || c == '+'

/-- The escaped form of a byte. -/
def escapeByte (b : UInt8) : List Char :=
  ['%', Text.hexDigit (b.toNat / 16), Text.hexDigit (b.toNat % 16)]

/-- The escaped form of a character: each byte of its encoding. -/
def escapeChar (c : Char) : List Char := (String.utf8EncodeChar c).flatMap escapeByte

/-- A character within a segment, escaped if it has to be. -/
def escapeInner (c : Char) : List Char := if isPlain c then [c] else escapeChar c

/-- A segment in its escaped form. The empty segment is a lone percent sign, and a point at the
start is escaped although it is plain elsewhere. -/
def escape : List Char → List Char
  | [] => ['%']
  | c :: rest => (if c = '.' then escapeChar c else escapeInner c) ++ rest.flatMap escapeInner

/-- The name of an entry. -/
structure Key where
  /-- The escaped segments. -/
  segments : List (List Char)
deriving DecidableEq, Repr

namespace Key

/-- The text of a key, which is also the path of its entry below the root of the cache. -/
def text (k : Key) : String := String.ofList (['/'].intercalate k.segments)

/-- The key of the given texts. -/
def ofTexts (texts : List String) : Key := ⟨texts.map fun text => escape text.toList⟩

/-- The key of a descriptor. -/
def descriptor (repository : String) (c : Coordinate) : Key :=
  ofTexts [repository, "descriptors", c.group, c.name, c.version, "descriptor"]

/-- The key of a version listing, in which the constraint of the selector has no part. -/
def listing (repository : String) (s : Selector) : Key :=
  ofTexts [repository, "versions", s.group, s.name, "versions"]

/-- The segment of a classifier, by which none and the empty one differ. -/
def classifierText : Option String → String
  | some classifier => "+" ++ classifier
  | none => "_"

/-- The key of the content of an artifact. -/
def artifact (repository : String) (a : Artifact) : Key :=
  ofTexts [repository, "artifacts", a.module.group, a.module.name, a.module.version, a.kind, a.name,
    classifierText a.classifier, a.fileName]

/-- The segment of a category. -/
def categoryText : Category → String
  | .configuration name => "configuration-" ++ name
  | .documentation => "documentation"
  | .sources => "sources"

/-- The key of the record of a probe for a category. -/
def artifactSet (repository : String) (c : Coordinate) (category : Category) : Key :=
  ofTexts [repository, "artifact-sets", c.group, c.name, c.version, categoryText category]

end Key
end ArtifactResolver.Cache
