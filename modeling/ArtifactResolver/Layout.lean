import ArtifactResolver.Artifact
import ArtifactResolver.Selector

/-!
# Layouts

A layout says where a repository keeps its files, by two patterns. A pattern is text with tokens
such as `[module]`; a piece in parentheses is left out when one of its tokens has no value. A
pattern is read once into pieces and segments, and rendering is a map over those, so what a token's
value contains is never read as pattern.
-/

namespace ArtifactResolver

namespace Layout

/-- What stands before and after the first occurrence of a character, none if it does not occur. -/
def breakAt? (c : Char) : List Char → Option (List Char × List Char)
  | [] => none
  | d :: rest =>
    if d = c then some ([], rest)
    else (breakAt? c rest).map fun parts => (d :: parts.1, parts.2)

/-- What stands before and after the first occurrence of a character makes up the text again. -/
theorem eq_of_breakAt? {c : Char} {cs before after : List Char}
    (h : breakAt? c cs = some (before, after)) : cs = before ++ c :: after ∧ c ∉ before := by
  induction cs generalizing before with
  | nil => simp [breakAt?] at h
  | cons d rest ih =>
    unfold breakAt? at h
    split at h
    · next hd => simp only [Option.some.injEq, Prod.mk.injEq] at h; simp [← h.1, ← h.2, hd]
    · next hd =>
      obtain ⟨⟨b, a⟩, hba, heq⟩ := Option.map_eq_some_iff.1 h
      simp only [Prod.mk.injEq] at heq
      obtain ⟨rfl, rfl⟩ := heq
      obtain ⟨rfl, hb⟩ := ih hba
      exact ⟨rfl, by simp [hb, Ne.symm hd]⟩

/-- A segment of a piece. -/
inductive Segment where
  /-- Text that stands for itself. -/
  | literal (text : List Char)
  /-- A name in brackets. -/
  | token (name : List Char)
deriving DecidableEq, Repr

set_option linter.unusedVariables false in
/-- The segments of a piece. A `[` pairs with the next `]`; one without any starts literal text. -/
def segments (piece : List Char) : List Segment :=
  match h : breakAt? '[' piece with
  | none => [.literal piece]
  | some (before, rest) =>
    match h' : breakAt? ']' rest with
    | none => [.literal before, .literal ('[' :: rest)]
    | some (name, after) => .literal before :: .token name :: segments after
termination_by piece.length
decreasing_by
  have := congrArg List.length (eq_of_breakAt? h).1
  have := congrArg List.length (eq_of_breakAt? h').1
  simp at *
  omega

/-- A piece of a pattern. -/
inductive Piece where
  /-- A piece that is always there. -/
  | plain (text : List Char)
  /-- A piece in parentheses, which is there only if all its tokens have values. -/
  | optional (text : List Char)
deriving DecidableEq, Repr

set_option linter.unusedVariables false in
/-- The pieces of a pattern. A `(` pairs with the next `)`; one without any starts a last plain
piece, of which it is part. -/
def pieces (pattern : List Char) : List Piece :=
  match h : breakAt? '(' pattern with
  | none => [.plain pattern]
  | some (before, rest) =>
    match h' : breakAt? ')' rest with
    | none => [.plain before, .plain ('(' :: rest)]
    | some (inner, after) => .plain before :: .optional inner :: pieces after
termination_by pattern.length
decreasing_by
  have := congrArg List.length (eq_of_breakAt? h).1
  have := congrArg List.length (eq_of_breakAt? h').1
  simp at *
  omega

/-- The known tokens, each with its value if it has one. -/
abbrev Tokens := List (String × Option String)

/-- The value of a token: none if the token is unknown, `some none` if it has no value. -/
def Tokens.value? (tokens : Tokens) (name : List Char) : Option (Option String) :=
  tokens.lookup (String.ofList name)

/-- The text of a segment. An unknown token stands for itself, brackets included, and a token
without a value for nothing. -/
def Segment.render (tokens : Tokens) : Segment → List Char
  | literal text => text
  | token name =>
    match tokens.value? name with
    | some (some value) => value.toList
    | some none => []
    | none => '[' :: name ++ [']']

/-- Whether a segment is a known token without a value. -/
def Segment.isBlank (tokens : Tokens) : Segment → Bool
  | literal _ => false
  | token name => tokens.value? name == some none

/-- The text of a piece. -/
def Piece.render (tokens : Tokens) : Piece → List Char
  | plain text => (segments text).flatMap (Segment.render tokens)
  | optional text =>
    if (segments text).any (Segment.isBlank tokens) then []
    else (segments text).flatMap (Segment.render tokens)

/-- The text of a pattern. -/
def render (tokens : Tokens) (pattern : List Char) : List Char :=
  (pieces pattern).flatMap (Piece.render tokens)

/-- The tokens of an artifact. -/
def artifactTokens (a : Artifact) : Tokens :=
  [("organisation", some a.module.group), ("module", some a.module.name),
    ("revision", some a.module.version), ("artifact", some a.name), ("type", some a.kind),
    ("ext", some a.extension), ("classifier", a.classifier)]

/-- The tokens that are known without a version. -/
def moduleTokens (group name : String) : Tokens :=
  [("organisation", some group), ("module", some name)]

/-- The text before the first occurrence of another text, none if it does not occur. -/
def before? (part : List Char) : List Char → Option (List Char)
  | [] => if part.isEmpty then some [] else none
  | c :: rest =>
    if part.isPrefixOf (c :: rest) then some [] else (before? part rest).map (c :: ·)

/-- The text up to its last slash, which is included. -/
def uptoLastSlash (cs : List Char) : List Char := (cs.reverse.dropWhile (· != '/')).reverse

/-- The directory of a module in a descriptor pattern: what comes before the path component that
holds the first `[revision]`. -/
def moduleDirectory (pattern : List Char) : List Char :=
  match before? "[revision]".toList pattern with
  | some before => uptoLastSlash before
  | none => []

end Layout

/-- Where a repository keeps its files. -/
structure Layout where
  /-- The pattern of descriptors. -/
  descriptorPattern : String := "[organisation]/[module]/[revision]/[artifact]-[revision].[ext]"
  /-- The pattern of artifacts. -/
  artifactPattern : String :=
    "[organisation]/[module]/[revision]/[artifact]-[revision](-[classifier]).[ext]"
deriving DecidableEq, Repr

namespace Layout

/-- The place of a descriptor, which is itself an artifact. -/
def descriptorLocation (l : Layout) (descriptor : Artifact) : String :=
  String.ofList (render (artifactTokens descriptor) l.descriptorPattern.toList)

/-- The place of an artifact. -/
def artifactLocation (l : Layout) (a : Artifact) : String :=
  String.ofList (render (artifactTokens a) l.artifactPattern.toList)

/-- The place of the version listing of a module: `versions.toml` in the directory that holds the
module's versions. -/
def listingLocation (l : Layout) (group name : String) : String :=
  String.ofList (render (moduleTokens group name) (moduleDirectory l.descriptorPattern.toList)) ++
    "versions.toml"

end Layout
end ArtifactResolver
