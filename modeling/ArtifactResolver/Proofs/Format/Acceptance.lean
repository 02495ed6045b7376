import ArtifactResolver.Proofs.Format.Descriptor
import ArtifactResolver.Proofs.Text.Order

/-!
# Which descriptors are accepted

A descriptor is refused if it extends a configuration that it does not declare, and else if it
describes another module version than the one that was asked for. An accepted one is taken for what
it says, with the gaps filled in from the module. When several configurations extend undeclared ones,
the first of them in byte order is reported, whatever the order in which the descriptor has them.
-/

namespace ArtifactResolver.Descriptor

open Text (encode)

variable {d : Document} {requested : Coordinate} {child parent name : String}

/-! ## What a descriptor says -/

/-- The entry of a descriptor for a configuration, which for a descriptor without any is the standard
one. Of several entries with one name the last one counts. -/
def Document.entry? (d : Document) (name : String) : Option ConfigurationEntry :=
  d.configurationsOrStandard.reverse.lookup name

/-- Every configuration that is extended is declared. -/
def Document.IsClosed (d : Document) : Prop :=
  ∀ child entry, d.entry? child = some entry → ∀ parent ∈ entry.parents, d.entry? parent ≠ none

/-- The first undeclared one of the configurations that `child` extends is `parent`. -/
def Document.Strays (d : Document) (child parent : String) : Prop :=
  ∃ entry before after, d.entry? child = some entry ∧ entry.parents = before ++ parent :: after ∧
    d.entry? parent = none ∧ ∀ other ∈ before, d.entry? other ≠ none

/-- An entry stands for an artifact of a module whose files have the given extension. -/
structure ArtifactEntry.StandsFor (e : ArtifactEntry) (module : Coordinate) (extension : String)
    (a : Artifact) : Prop where
  module_eq : a.module = module
  extension_eq : a.extension = e.extension.getD extension
  kind_eq : a.kind = e.kind.getD a.extension
  name_eq : a.name = e.name.getD module.name
  classifier_eq : a.classifier = e.classifier

/-- The metadata has the configurations of the descriptor, with their artifacts filled in from the
module. -/
structure Document.Describes (d : Document) (m : Metadata) : Prop where
  coordinate_eq : m.coordinate = d.module.coordinate
  extension_eq : m.extension = d.module.extension.getD "jar"
  nonempty : m.configurations ≠ []
  ascending : Ascending.IsAscending (m.configurations.map (·.1))
  declared_iff : ∀ name, m.configuration? name = none ↔ d.entry? name = none
  name_eq : ∀ entry ∈ m.configurations, entry.2.name = entry.1
  parents_declared : ∀ entry ∈ m.configurations, ∀ parent ∈ entry.2.parents,
    m.configuration? parent ≠ none
  of_entry : ∀ entry ∈ m.configurations, ∃ given, d.entry? entry.1 = some given ∧
    entry.2.parents = given.parents ∧
    ∀ a, a ∈ entry.2.artifacts ↔
      ∃ e ∈ given.artifacts, e.StandsFor m.coordinate m.extension a
  standard : d.configurations = [] →
    m.configurations = [("default", {
      name := "default"
      artifacts := [⟨m.coordinate, m.coordinate.name, m.extension, m.extension, none⟩] })]

/-! ## The configurations of a descriptor -/

theorem lookup_map {α β : Type} (f : String → α → β) (name : String)
    (entries : List (String × α)) :
    (entries.map fun entry => (entry.1, f entry.1 entry.2)).lookup name =
      (entries.lookup name).map (f name) := by
  induction entries with
  | nil => rfl
  | cons entry rest ih =>
    rw [List.map_cons, List.lookup_cons, List.lookup_cons, ih]
    by_cases hname : name = entry.1
    · simp [hname]
    · simp [beq_false_of_ne hname]

theorem configuration?_complete (d : Document) (name : String) :
    d.complete.configuration? name =
      (d.entry? name).map
        (·.complete d.module.coordinate (d.module.extension.getD "jar") name) := by
  show Ascending.find? name (Ascending.ofEntries _) = _
  rw [Ascending.find?_ofEntries, ← List.map_reverse]
  exact lookup_map (fun name (entry : ConfigurationEntry) =>
    entry.complete d.module.coordinate (d.module.extension.getD "jar") name) name _

theorem configuration?_eq_none_iff :
    d.complete.configuration? name = none ↔ d.entry? name = none := by
  rw [configuration?_complete, Option.map_eq_none_iff]

theorem isAscending_complete (d : Document) :
    Ascending.IsAscending (d.complete.configurations.map (·.1)) :=
  Ascending.isAscending_keys_ofEntries _

theorem mem_complete_iff {c : Configuration} :
    (name, c) ∈ d.complete.configurations ↔ ∃ entry, d.entry? name = some entry ∧
      entry.complete d.module.coordinate (d.module.extension.getD "jar") name = c := by
  rw [← Ascending.find?_eq_some_iff (isAscending_complete d)]
  show d.complete.configuration? name = some c ↔ _
  rw [configuration?_complete, Option.map_eq_some_iff]

theorem standsFor_complete {e : ArtifactEntry} {module : Coordinate} {extension : String}
    {a : Artifact} : e.StandsFor module extension a ↔ e.complete module extension = a := by
  constructor
  · rintro ⟨hmodule, hextension, hkind, hname, hclassifier⟩
    obtain ⟨module', name', kind', extension', classifier'⟩ := a
    dsimp only at hmodule hextension hkind hname hclassifier
    subst hmodule hextension hkind hname hclassifier
    rfl
  · rintro rfl
    exact ⟨rfl, rfl, rfl, rfl, rfl⟩

theorem mem_artifacts_complete {entry : ConfigurationEntry} {module : Coordinate}
    {extension : String} {a : Artifact} :
    a ∈ (entry.complete module extension name).artifacts ↔
      ∃ e ∈ entry.artifacts, e.StandsFor module extension a := by
  unfold ConfigurationEntry.complete
  rw [Ascending.mem_ofList, List.mem_map]
  simp only [standsFor_complete]

theorem configurationsOrStandard_ne_nil (d : Document) : d.configurationsOrStandard ≠ [] := by
  unfold Document.configurationsOrStandard
  split
  · exact List.cons_ne_nil _ _
  · next h => simpa using h

theorem nonempty_complete (d : Document) : d.complete.configurations ≠ [] := by
  obtain ⟨entries, last, hentries⟩ :=
    (List.eq_nil_or_concat' d.configurationsOrStandard).resolve_left
      (configurationsOrStandard_ne_nil d)
  have hlast : d.entry? last.1 = some last.2 := by
    unfold Document.entry?
    rw [hentries, List.reverse_append, List.reverse_singleton, List.singleton_append,
      List.lookup_cons, beq_self_eq_true]
  exact List.ne_nil_of_mem (mem_complete_iff.2 ⟨last.2, hlast, rfl⟩)

theorem describes_complete (h : d.IsClosed) : d.Describes d.complete where
  coordinate_eq := rfl
  extension_eq := rfl
  nonempty := nonempty_complete d
  ascending := isAscending_complete d
  declared_iff _ := configuration?_eq_none_iff
  name_eq := by
    rintro ⟨name, c⟩ hmem
    obtain ⟨entry, _, rfl⟩ := mem_complete_iff.1 hmem
    rfl
  parents_declared := by
    rintro ⟨name, c⟩ hmem parent hparent
    obtain ⟨entry, hentry, rfl⟩ := mem_complete_iff.1 hmem
    exact mt configuration?_eq_none_iff.1 (h name entry hentry parent hparent)
  of_entry := by
    rintro ⟨name, c⟩ hmem
    obtain ⟨entry, hentry, rfl⟩ := mem_complete_iff.1 hmem
    exact ⟨entry, hentry, rfl, fun a => mem_artifacts_complete⟩
  standard hnil := by
    simp only [Document.complete, Document.configurationsOrStandard, hnil]
    rfl

/-! ## Undeclared configurations -/

theorem isClosed_or_strays (d : Document) : d.IsClosed ∨ ∃ child parent, d.Strays child parent := by
  refine or_iff_not_imp_left.2 fun hopen => ?_
  unfold Document.IsClosed at hopen
  push Not at hopen
  obtain ⟨child, entry, hentry, parent, hparent, hnone⟩ := hopen
  have hfound : (entry.parents.find? fun parent => (d.entry? parent).isNone).isSome :=
    List.find?_isSome.2 ⟨parent, hparent, Option.isNone_iff_eq_none.2 hnone⟩
  obtain ⟨first, hfirst⟩ := Option.isSome_iff_exists.1 hfound
  obtain ⟨hundeclared, before, after, hparents, hbefore⟩ := List.find?_eq_some_iff_append.1 hfirst
  refine ⟨child, first, entry, before, after, hentry, hparents,
    Option.isNone_iff_eq_none.1 hundeclared, fun other hother hnone => ?_⟩
  have hdeclared := hbefore other hother
  rw [hnone] at hdeclared
  cases hdeclared

theorem not_isClosed_of_strays (h : d.Strays child parent) : ¬ d.IsClosed := by
  obtain ⟨entry, before, after, hentry, hparents, hnone, _⟩ := h
  intro hclosed
  refine hclosed child entry hentry parent ?_ hnone
  rw [hparents]
  exact List.mem_append_right before List.mem_cons_self

/-- The undeclared configuration that a configuration is reported with. -/
def strayOf? (m : Metadata) (entry : String × Configuration) : Option String :=
  entry.2.parents.find? fun parent => (m.configuration? parent).isNone

theorem undeclaredParent?_eq (m : Metadata) :
    undeclaredParent? m =
      m.configurations.findSome? fun entry => (strayOf? m entry).map (entry.2.name, ·) :=
  rfl

theorem strays_iff : d.Strays child parent ↔
    ∃ c, (child, c) ∈ d.complete.configurations ∧ strayOf? d.complete (child, c) = some parent := by
  unfold Document.Strays strayOf?
  simp only [mem_complete_iff, List.find?_eq_some_iff_append, Option.isNone_iff_eq_none,
    configuration?_eq_none_iff]
  constructor
  · rintro ⟨entry, before, after, hentry, hparents, hnone, hbefore⟩
    refine ⟨_, ⟨entry, hentry, rfl⟩, hnone, before, after, hparents, fun other hother => ?_⟩
    simpa [configuration?_complete, Option.isSome_iff_ne_none] using hbefore other hother
  · rintro ⟨_, ⟨entry, hentry, rfl⟩, hnone, before, after, hparents, hbefore⟩
    refine ⟨entry, before, after, hentry, hparents, hnone, fun other hother => ?_⟩
    simpa [configuration?_complete, Option.isSome_iff_ne_none] using hbefore other hother

/-- The reported configuration is the first one of those that extend an undeclared one. -/
theorem strays_of_undeclaredParent? (h : undeclaredParent? d.complete = some (child, parent)) :
    d.Strays child parent ∧
      ∀ other parent', d.Strays other parent' → (compare child other).isLE := by
  rw [undeclaredParent?_eq, List.findSome?_eq_some_iff] at h
  obtain ⟨before, ⟨name, c⟩, after, hconfigurations, hstray, hbefore⟩ := h
  obtain ⟨first, hfirst, hreported⟩ := Option.map_eq_some_iff.1 hstray
  have hmem : (name, c) ∈ d.complete.configurations := by
    rw [hconfigurations]
    exact List.mem_append_right before List.mem_cons_self
  have hname : c.name = name := by
    obtain ⟨entry, _, rfl⟩ := mem_complete_iff.1 hmem
    rfl
  obtain ⟨rfl, rfl⟩ := Prod.mk.inj hreported
  subst hname
  refine ⟨strays_iff.2 ⟨c, hmem, hfirst⟩, fun other parent' hother => ?_⟩
  obtain ⟨c', hmem', hstray'⟩ := strays_iff.1 hother
  have hascending := isAscending_complete d
  rw [hconfigurations, List.map_append, List.map_cons] at hascending
  obtain ⟨hlater, _⟩ := List.pairwise_cons.1 (List.pairwise_append.1 hascending).2.1
  rw [hconfigurations] at hmem'
  rcases List.mem_append.1 hmem' with hmem' | hmem'
  · -- what stands in front of the reported one extends declared configurations only
    have hnone := hbefore _ hmem'
    rw [hstray'] at hnone
    cases hnone
  · rcases List.mem_cons.1 hmem' with heq | hmem'
    · rw [(Prod.mk.inj heq).1]
      exact Std.ReflCmp.isLE_rfl
    · exact Ordering.isLE_of_eq_lt (hlater other (List.mem_map_of_mem hmem'))

theorem undeclaredParent?_eq_none_iff : undeclaredParent? d.complete = none ↔ d.IsClosed := by
  constructor
  · intro hnone
    refine (isClosed_or_strays d).resolve_right ?_
    rintro ⟨child, parent, hstrays⟩
    obtain ⟨c, hmem, hstray⟩ := strays_iff.1 hstrays
    rw [undeclaredParent?_eq, List.findSome?_eq_none_iff] at hnone
    have hentry := hnone _ hmem
    rw [hstray] at hentry
    cases hentry
  · intro hclosed
    cases h : undeclaredParent? d.complete with
    | none => rfl
    | some stray => exact absurd hclosed (not_isClosed_of_strays (strays_of_undeclaredParent? h).1)

theorem Document.Strays.unique {parent' : String} (h : d.Strays child parent)
    (h' : d.Strays child parent') : parent = parent' := by
  obtain ⟨c, hmem, hstray⟩ := strays_iff.1 h
  obtain ⟨c', hmem', hstray'⟩ := strays_iff.1 h'
  rw [← Ascending.find?_eq_some_iff (isAscending_complete d)] at hmem hmem'
  obtain rfl := Option.some.inj (hmem.symm.trans hmem')
  exact Option.some.inj (hstray.symm.trans hstray')

theorem undeclaredParent?_eq_some_iff : undeclaredParent? d.complete = some (child, parent) ↔
    d.Strays child parent ∧
      ∀ other parent', d.Strays other parent' → (compare child other).isLE := by
  refine ⟨strays_of_undeclaredParent?, fun ⟨hstrays, hleast⟩ => ?_⟩
  cases h : undeclaredParent? d.complete with
  | none => exact absurd (undeclaredParent?_eq_none_iff.1 h) (not_isClosed_of_strays hstrays)
  | some stray =>
    obtain ⟨hstrays', hleast'⟩ := strays_of_undeclaredParent? h
    have hchild : stray.1 = child :=
      Std.LawfulEqCmp.eq_of_compare
        (Std.OrientedCmp.isLE_antisymm (hleast' child parent hstrays) (hleast _ _ hstrays'))
    obtain ⟨child', parent'⟩ := stray
    dsimp only at hchild hstrays'
    subst hchild
    rw [hstrays'.unique hstrays]

/-! ## Acceptance -/

/-- Undeclared configurations are looked for first, and the coordinate is compared then. -/
theorem metadataFor_cases (requested : Coordinate) (d : Document) :
    (∃ child parent, undeclaredParent? d.complete = some (child, parent) ∧ ¬ d.IsClosed ∧
      d.metadataFor requested = .error (.undeclaredParent child parent)) ∨
    (d.IsClosed ∧ d.module.coordinate ≠ requested ∧ d.metadataFor requested =
      .error (.coordinateMismatch requested.display d.module.coordinate.display)) ∨
    (d.IsClosed ∧ d.module.coordinate = requested ∧ d.metadataFor requested = .ok d.complete) := by
  unfold Document.metadataFor
  dsimp only
  cases hstray : undeclaredParent? d.complete with
  | some stray =>
    exact Or.inl ⟨stray.1, stray.2, rfl,
      not_isClosed_of_strays (strays_of_undeclaredParent? hstray).1, rfl⟩
  | none =>
    have hclosed : d.IsClosed := undeclaredParent?_eq_none_iff.1 hstray
    by_cases hcoordinate : d.module.coordinate = requested
    · exact Or.inr (Or.inr ⟨hclosed, hcoordinate, if_pos hcoordinate⟩)
    · exact Or.inr (Or.inl ⟨hclosed, hcoordinate, if_neg hcoordinate⟩)

theorem metadataFor_eq_undeclaredParent_iff :
    d.metadataFor requested = .error (.undeclaredParent child parent) ↔
      undeclaredParent? d.complete = some (child, parent) := by
  rcases metadataFor_cases requested d with ⟨child', parent', hstray, _, hm⟩ |
    ⟨hclosed, _, hm⟩ | ⟨hclosed, _, hm⟩
  · simp [hm, hstray]
  · simp [hm, undeclaredParent?_eq_none_iff.2 hclosed]
  · simp [hm, undeclaredParent?_eq_none_iff.2 hclosed]

theorem metadataFor_eq_coordinateMismatch_iff {wanted found : String} :
    d.metadataFor requested = .error (.coordinateMismatch wanted found) ↔
      (d.IsClosed ∧ d.module.coordinate ≠ requested) ∧
        wanted = requested.display ∧ found = d.module.coordinate.display := by
  rcases metadataFor_cases requested d with ⟨child', parent', _, hopen, hm⟩ |
    ⟨hclosed, hcoordinate, hm⟩ | ⟨_, hcoordinate, hm⟩
  · simp [hm, hopen]
  · simp [hm, hclosed, hcoordinate, eq_comm]
  · simp [hm, hcoordinate]

theorem metadataFor_eq_ok_iff {m : Metadata} : d.metadataFor requested = .ok m ↔
    (d.IsClosed ∧ d.module.coordinate = requested) ∧ d.complete = m := by
  rcases metadataFor_cases requested d with ⟨child', parent', _, hopen, hm⟩ |
    ⟨_, hcoordinate, hm⟩ | ⟨hclosed, hcoordinate, hm⟩
  · simp [hm, hopen]
  · simp [hm, hcoordinate]
  · simp [hm, hclosed, hcoordinate]

/-- What comes of a descriptor that was looked up for a module version. An undeclared configuration
is reported exactly if something is extended that is not declared, namely the first one that the
least such configuration in byte order extends. Another module version is reported exactly if that
is all that is wrong. A descriptor with nothing wrong is accepted, and the metadata is what it says
of the version that was asked for. -/
theorem accepted_or_refused (requested : Coordinate) (d : Document) :
    ((∃ child parent, d.metadataFor requested = .error (.undeclaredParent child parent)) ↔
      ¬ d.IsClosed) ∧
    (∀ child parent, d.metadataFor requested = .error (.undeclaredParent child parent) ↔
      d.Strays child parent ∧ ∀ other parent', d.Strays other parent' →
        (compare (encode child) (encode other)).isLE) ∧
    (∀ wanted found, d.metadataFor requested = .error (.coordinateMismatch wanted found) ↔
      (d.IsClosed ∧ d.module.coordinate ≠ requested) ∧
        wanted = requested.display ∧ found = d.module.coordinate.display) ∧
    ((∃ m, d.metadataFor requested = .ok m) ↔ d.IsClosed ∧ d.module.coordinate = requested) ∧
    (∀ m, d.metadataFor requested = .ok m → m.coordinate = requested ∧ d.Describes m) ∧
    ∀ bytes, readDocument Document.ofEntries bytes = .ok d →
      read requested bytes = d.metadataFor requested := by
  refine ⟨?_, fun child parent => ?_, fun _ _ => metadataFor_eq_coordinateMismatch_iff, ?_, ?_, ?_⟩
  · rw [← undeclaredParent?_eq_none_iff, ← ne_eq, Option.ne_none_iff_exists']
    simp only [metadataFor_eq_undeclaredParent_iff, Prod.exists]
  · simp only [Text.compare_encode]
    rw [metadataFor_eq_undeclaredParent_iff, undeclaredParent?_eq_some_iff]
  · simp only [metadataFor_eq_ok_iff, exists_and_left, exists_eq', and_true]
  · intro m hm
    obtain ⟨⟨hclosed, hcoordinate⟩, rfl⟩ := metadataFor_eq_ok_iff.1 hm
    exact ⟨hcoordinate, describes_complete hclosed⟩
  · intro bytes h
    unfold read
    rw [h]
    rfl

/-- A descriptor of another version than `1.0` with two configurations that extend undeclared
ones. -/
def strayingDescriptor : Bytes :=
  encode ("[module]\ngroup = \"g\"\nname = \"lib\"\nversion = \"2.0\"\n" ++
    "[configurations.test]\nextends = [\"samples\"]\n" ++
    "[configurations.runtime]\nextends = [\"compile\", \"native\", \"docs\"]\n" ++
    "[configurations.compile]\n")

/-- What is written there. -/
def strayingDocument : Document where
  module := ⟨⟨"g", "lib", "2.0"⟩, none, none⟩
  configurations := [("test", { parents := ["samples"] }),
    ("runtime", { parents := ["compile", "native", "docs"] }), ("compile", {})]

theorem strayingDescriptor_read :
    readDocument Document.ofEntries strayingDescriptor = .ok strayingDocument := by
  decide +kernel

/-- A descriptor without configurations, of a module whose files are archives. -/
def bareDocument : Document where
  module := ⟨⟨"g", "lib", "1.0"⟩, none, some "zip"⟩
  configurations := []

theorem isClosed_bareDocument : bareDocument.IsClosed := by
  intro child entry hentry parent hparent
  have hstandard : bareDocument.entry? child = [standardConfiguration].lookup child := rfl
  rw [hstandard, List.lookup_cons] at hentry
  split at hentry
  · obtain rfl := Option.some.inj hentry
    cases hparent
  · cases hentry

/-- Of two configurations that extend undeclared ones the second one is reported, as its name is less
than that of the first, and the wrong version is not. A descriptor without configurations is accepted
for one artifact. -/
theorem straying_refused_bare_accepted :
    (read ⟨"g", "lib", "1.0"⟩ strayingDescriptor =
        .error (.undeclaredParent "runtime" "native") ∧
      strayingDocument.Strays "runtime" "native") ∧
    ∃ m, bareDocument.metadataFor ⟨"g", "lib", "1.0"⟩ = .ok m ∧ bareDocument.Describes m ∧
      m.configurations = [("default", {
        name := "default", artifacts := [⟨⟨"g", "lib", "1.0"⟩, "lib", "zip", "zip", none⟩] })] := by
  obtain ⟨_, hstrays, _, _, _, hread⟩ := accepted_or_refused ⟨"g", "lib", "1.0"⟩ strayingDocument
  obtain ⟨_, _, _, haccepted, hdescribes, _⟩ :=
    accepted_or_refused ⟨"g", "lib", "1.0"⟩ bareDocument
  have hrefused : strayingDocument.metadataFor ⟨"g", "lib", "1.0"⟩ =
      .error (.undeclaredParent "runtime" "native") := by decide +kernel
  obtain ⟨m, hm⟩ := haccepted.2 ⟨isClosed_bareDocument, rfl⟩
  obtain ⟨hcoordinate, hm'⟩ := hdescribes m hm
  refine ⟨⟨(hread _ strayingDescriptor_read).trans hrefused, ((hstrays _ _).1 hrefused).1⟩,
    m, hm, hm', ?_⟩
  rw [hm'.standard rfl, hcoordinate, hm'.extension_eq]
  rfl

end ArtifactResolver.Descriptor
