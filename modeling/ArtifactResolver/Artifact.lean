import ArtifactResolver.Coordinate

/-!
# Artifacts and their categories

An artifact is one file that a module version publishes. A category is a set of artifacts that a
caller can ask for: those of a configuration, or one of two kinds of companions, sources and
documentation. Companions that a module does not declare are guessed by convention, and the guess is
a single candidate.
-/

namespace ArtifactResolver

/-- The identity of one file that a module version publishes. No classifier and an empty classifier
are different identities. -/
structure Artifact where
  /-- The module version that publishes the file. -/
  module : Coordinate
  /-- The name of the file, without version, classifier and extension. -/
  name : String
  /-- What kind of file it is. -/
  kind : String
  /-- The extension of the file. -/
  extension : String
  /-- What sets the file apart from others of the same name, if anything. -/
  classifier : Option String
deriving DecidableEq, Repr, Inhabited

namespace Artifact

/-- Artifacts compare by module, name, kind, extension and classifier, no classifier first. -/
instance : Ord Artifact where
  compare := compareLex (compareOn (·.module)) (compareLex (compareOn (·.name))
    (compareLex (compareOn (·.kind)) (compareLex (compareOn (·.extension))
    (compareOn (·.classifier)))))

instance : Std.TransOrd Artifact :=
  inferInstanceAs (Std.TransCmp (compareLex (compareOn module) (compareLex (compareOn name)
    (compareLex (compareOn kind) (compareLex (compareOn extension) (compareOn classifier))))))

instance : Std.LawfulEqOrd Artifact where
  compare_self := Std.ReflCmp.compare_self
  eq_of_compare {a b} h := by
    change (compare a.module b.module).then ((compare a.name b.name).then
      ((compare a.kind b.kind).then ((compare a.extension b.extension).then
        (compare a.classifier b.classifier)))) = .eq at h
    simp only [Ordering.then_eq_eq, Std.LawfulEqOrd.compare_eq_iff_eq] at h
    cases a
    cases b
    simp_all

/-- The file name `name-version[-classifier].extension`. -/
def fileName (a : Artifact) : String :=
  match a.classifier with
  | some classifier => s!"{a.name}-{a.module.version}-{classifier}.{a.extension}"
  | none => s!"{a.name}-{a.module.version}.{a.extension}"

/-- The written form `module:name[:classifier]@extension`. -/
def display (a : Artifact) : String :=
  match a.classifier with
  | some classifier => s!"{a.module.display}:{a.name}:{classifier}@{a.extension}"
  | none => s!"{a.module.display}:{a.name}@{a.extension}"

end Artifact

/-- A set of artifacts of a module that a caller can ask for. -/
inductive Category where
  /-- The artifacts of a configuration that the module declares. -/
  | configuration (name : String)
  /-- The documentation of the module. -/
  | documentation
  /-- The sources of the module. -/
  | sources
deriving DecidableEq, Repr

namespace Category

/-- The place of a category among the kinds of categories, and its name within its kind. -/
def rank : Category → Nat × String
  | configuration name => (0, name)
  | documentation => (1, "")
  | sources => (2, "")

/-- Configurations come first, by name, then documentation, then sources. -/
instance : Ord Category where
  compare := compareLex (compareOn fun c => c.rank.1) (compareOn fun c => c.rank.2)

/-- The written form of a category. -/
def display : Category → String
  | configuration name => s!"configuration {name}"
  | documentation => "documentation"
  | sources => "sources"

/-- The configuration by which a module declares the category. -/
def configurationName : Category → String
  | configuration name => name
  | documentation => "javadoc"
  | sources => "sources"

/-- The kind and the classifier of an undeclared companion, none for a configuration. -/
def convention? : Category → Option (String × String)
  | configuration _ => none
  | documentation => some ("javadoc", "javadoc")
  | sources => some ("source", "sources")

/-- The one artifact that an undeclared companion may be: it has the module's name and extension,
and the kind and classifier of the convention. -/
def candidate? (c : Category) (module : Coordinate) (extension : String) : Option Artifact :=
  c.convention?.map fun convention =>
    ⟨module, module.name, convention.1, extension, some convention.2⟩

end Category

/-- An artifact whose content is available as a file. -/
structure Located where
  /-- The artifact. -/
  artifact : Artifact
  /-- The path of the file that holds its content. -/
  path : String
deriving DecidableEq, Repr

end ArtifactResolver
