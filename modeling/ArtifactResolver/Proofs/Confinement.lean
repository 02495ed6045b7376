import Mathlib.Data.List.Forall2
import ArtifactResolver.Environment
import ArtifactResolver.Format.Registry
import ArtifactResolver.Proofs.Cache.Identity
import ArtifactResolver.Proofs.Files.Below
import ArtifactResolver.Proofs.Repository.Remote

/-!
# What a site in a directory can be asked for

A layout puts the fields of a request into its patterns as they are. A field that is made of dots
or holds a slash can so add names to a location, and lead out of the directory of a site. Fields
that do neither each take part in one name, which is neither `.` nor `..`, and where such a location
leads is a matter of the patterns alone.
-/

namespace ArtifactResolver

open Files

variable {σ α : Type}

namespace Layout

/-! ## Text with values filled in -/

/-- The text takes part in one name, and not only by dots. -/
structure Solid (value : List Char) : Prop where
  no_slash : '/' ∉ value
  not_dots : ∃ c ∈ value, c ≠ '.'

theorem solid_iff {value : List Char} :
    Solid value ↔ ('/' ∉ value ∧ value.any (· != '.') = true) := by
  rw [List.any_eq_true]
  constructor
  · rintro ⟨hslash, c, hc, hne⟩
    exact ⟨hslash, c, hc, by simpa using hne⟩
  · rintro ⟨hslash, c, hc, hne⟩
    exact ⟨hslash, c, hc, by simpa using hne⟩

instance (value : List Char) : Decidable (Solid value) := decidable_of_iff' _ solid_iff

/-- The texts are the same up to solid values in the same places. -/
inductive Alike : List Char → List Char → Prop where
  /-- Nothing is left. -/
  | nil : Alike [] []
  /-- A character that is the same. -/
  | same (c : Char) {cs cs' : List Char} (rest : Alike cs cs') : Alike (c :: cs) (c :: cs')
  /-- A value in either text. -/
  | value {v v' cs cs' : List Char} (hv : Solid v) (hv' : Solid v') (rest : Alike cs cs') :
      Alike (v ++ cs) (v' ++ cs')

variable {cs cs' ds ds' : List Char}

theorem Alike.refl (cs : List Char) : Alike cs cs := by
  induction cs with
  | nil => exact .nil
  | cons c cs ih => exact .same c ih

theorem Alike.of_solid (h : Solid cs) (h' : Solid cs') : Alike cs cs' := by
  simpa using Alike.value h h' .nil

theorem Alike.symm (h : Alike cs cs') : Alike cs' cs := by
  induction h with
  | nil => exact .nil
  | same c _ ih => exact .same c ih
  | value hv hv' _ ih => exact .value hv' hv ih

theorem Alike.append (h : Alike cs cs') (hd : Alike ds ds') : Alike (cs ++ ds) (cs' ++ ds') := by
  induction h with
  | nil => exact hd
  | same c _ ih => exact .same c ih
  | value hv hv' _ ih =>
    rw [List.append_assoc, List.append_assoc]
    exact .value hv hv' ih

theorem Alike.flatMap {β : Type} {l : List β} {f g : β → List Char}
    (h : ∀ b ∈ l, Alike (f b) (g b)) : Alike (l.flatMap f) (l.flatMap g) := by
  induction l with
  | nil => exact .nil
  | cons b l ih =>
    rw [List.flatMap_cons, List.flatMap_cons]
    exact (h b List.mem_cons_self).append (ih fun b hb => h b (List.mem_cons_of_mem _ hb))

/-- A text of dots is like itself only. -/
theorem Alike.eq_of_dots (h : Alike cs cs') (hdots : ∀ c ∈ cs, c = '.') : cs' = cs := by
  induction h with
  | nil => rfl
  | same c _ ih => rw [ih fun d hd => hdots d (List.mem_cons_of_mem _ hd)]
  | value hv _ _ _ =>
    obtain ⟨c, hc, hne⟩ := hv.not_dots
    exact absurd (hdots c (List.mem_append_left _ hc)) hne

theorem Alike.eq_dots_iff (h : Alike cs cs') (dots : List Char) (hdots : ∀ c ∈ dots, c = '.') :
    cs = dots ↔ cs' = dots := by
  constructor
  · rintro rfl
    exact h.eq_of_dots hdots
  · rintro rfl
    exact h.symm.eq_of_dots hdots

theorem splitOn_append (h : '/' ∉ cs) :
    (cs ++ ds).splitOn '/' = (ds.splitOn '/').modifyHead (cs ++ ·) := by
  induction cs with
  | nil => cases hsplit : ds.splitOn '/' <;> simp [hsplit]
  | cons c cs ih =>
    rw [List.mem_cons, not_or] at h
    rw [List.cons_append, List.splitOn_cons_eq_if_modifyHead, ih h.2,
      if_neg (by simpa using Ne.symm h.1)]
    cases ds.splitOn '/' <;> rfl

theorem forall₂_modifyHead {parts parts' : List (List Char)} {f g : List Char → List Char}
    (h : List.Forall₂ Alike parts parts') (hfg : ∀ {p p'}, Alike p p' → Alike (f p) (g p')) :
    List.Forall₂ Alike (parts.modifyHead f) (parts'.modifyHead g) := by
  cases h with
  | nil => exact .nil
  | cons hfirst hrest => exact .cons (hfg hfirst) hrest

/-- Texts that are alike have slashes in the same places. -/
theorem Alike.splitOn (h : Alike cs cs') :
    List.Forall₂ Alike (cs.splitOn '/') (cs'.splitOn '/') := by
  induction h with
  | nil => exact .cons .nil .nil
  | same c _ ih =>
    rw [List.splitOn_cons_eq_if_modifyHead, List.splitOn_cons_eq_if_modifyHead]
    split
    · exact .cons .nil ih
    · exact forall₂_modifyHead ih (.same c)
  | value hv hv' _ ih =>
    rw [splitOn_append hv.no_slash, splitOn_append hv'.no_slash]
    exact forall₂_modifyHead ih (.value hv hv')

/-- Locations that are alike stay below where they start, or lead out, together. -/
theorem Alike.staysBelow_eq (h : Alike cs cs') :
    Path.staysBelow 0 (Path.components (String.ofList cs)) =
      Path.staysBelow 0 (Path.components (String.ofList cs')) := by
  have hparts : ∀ {parts parts' : List (List Char)}, List.Forall₂ Alike parts parts' → ∀ depth,
      Path.staysBelow depth ((parts.filter fun p => !p.isEmpty).map String.ofList) =
        Path.staysBelow depth ((parts'.filter fun p => !p.isEmpty).map String.ofList) := by
    intro parts parts' hparts
    induction hparts with
    | nil => exact fun _ => rfl
    | @cons p p' _ _ hp _ ih =>
      intro depth
      have hempty : p = [] ↔ p' = [] := hp.eq_dots_iff [] (by simp)
      have hhere : String.ofList p = "." ↔ String.ofList p' = "." := by
        simpa [← String.toList_inj] using hp.eq_dots_iff ['.'] (by simp)
      have habove : String.ofList p = ".." ↔ String.ofList p' = ".." := by
        simpa [← String.toList_inj] using hp.eq_dots_iff ['.', '.'] (by simp)
      by_cases hp' : p' = []
      · simpa [hp', hempty.2 hp'] using ih depth
      · simp [hp', mt hempty.1 hp', Path.staysBelow, hhere, habove, ih]
  rw [Path.components, Path.components, String.toList_ofList, String.toList_ofList]
  exact hparts h.splitOn 0

/-! ## Patterns with values filled in -/

/-- The values are the same, or both are solid. -/
def AlikeValues (v v' : Option String) : Prop :=
  v = v' ∨ ∃ text text', v = some text ∧ v' = some text' ∧ Solid text.toList ∧ Solid text'.toList

/-- The same tokens have values, which are alike. -/
def AlikeTokens (tokens tokens' : Tokens) : Prop :=
  List.Forall₂ (fun entry entry' => entry.1 = entry'.1 ∧ AlikeValues entry.2 entry'.2)
    tokens tokens'

variable {tokens tokens' : Tokens}

theorem AlikeTokens.value? (h : AlikeTokens tokens tokens') (name : List Char) :
    tokens.value? name = none ∧ tokens'.value? name = none ∨
      ∃ v v', tokens.value? name = some v ∧ tokens'.value? name = some v' ∧ AlikeValues v v' := by
  induction h with
  | nil => exact Or.inl ⟨rfl, rfl⟩
  | @cons entry entry' _ _ hentry _ ih =>
    obtain ⟨key, v⟩ := entry
    obtain ⟨key', v'⟩ := entry'
    obtain ⟨rfl : key = key', hv⟩ := hentry
    rw [Tokens.value?, Tokens.value?, List.lookup_cons, List.lookup_cons]
    cases String.ofList name == key with
    | true => exact Or.inr ⟨v, v', rfl, rfl, hv⟩
    | false => exact ih

section Tokens

variable (h : AlikeTokens tokens tokens')
include h

theorem alike_segment (segment : Segment) :
    Alike (segment.render tokens) (segment.render tokens') := by
  cases segment with
  | literal text => exact .refl text
  | token name =>
    rw [Segment.render, Segment.render]
    rcases h.value? name with ⟨hv, hv'⟩ | ⟨v, v', hv, hv', rfl | ⟨_, _, rfl, rfl, hs, hs'⟩⟩
    · rw [hv, hv']
      exact .refl _
    · rw [hv, hv']
      exact .refl _
    · rw [hv, hv']
      exact .of_solid hs hs'

theorem isBlank_eq (segment : Segment) : segment.isBlank tokens = segment.isBlank tokens' := by
  cases segment with
  | literal text => rfl
  | token name =>
    rw [Segment.isBlank, Segment.isBlank]
    rcases h.value? name with ⟨hv, hv'⟩ | ⟨v, v', hv, hv', rfl | ⟨_, _, rfl, rfl, -, -⟩⟩
    · rw [hv, hv']
    · rw [hv, hv']
    · rw [hv, hv']
      rfl

theorem alike_piece (piece : Piece) : Alike (piece.render tokens) (piece.render tokens') := by
  cases piece with
  | plain text => exact .flatMap fun segment _ => alike_segment h segment
  | optional text =>
    have hblank : Segment.isBlank tokens = Segment.isBlank tokens' := funext (isBlank_eq h)
    rw [Piece.render, Piece.render, hblank]
    split
    · exact .nil
    · exact .flatMap fun segment _ => alike_segment h segment

/-- A pattern comes out alike for tokens that are. -/
theorem alike_render (pattern : List Char) :
    Alike (render tokens pattern) (render tokens' pattern) :=
  .flatMap fun piece _ => alike_piece h piece

end Tokens

/-! ## The locations of a layout -/

/-- The fields of a coordinate are solid. -/
structure SolidCoordinate (c : Coordinate) : Prop where
  group : Solid c.group.toList
  name : Solid c.name.toList
  version : Solid c.version.toList

/-- The fields of an artifact are solid. -/
structure SolidArtifact (a : Artifact) : Prop where
  module : SolidCoordinate a.module
  name : Solid a.name.toList
  kind : Solid a.kind.toList
  extension : Solid a.extension.toList
  classifier : ∀ text, a.classifier = some text → Solid text.toList

/-- An artifact that stands for all others with solid fields, with a classifier or without one. -/
def placeholder (classified : Bool) : Artifact :=
  ⟨⟨"x", "x", "x"⟩, "x", "x", "x", if classified then some "x" else none⟩

/-- The patterns lead nowhere else than below their start when solid values are filled in. -/
structure Level (l : Layout) : Prop where
  descriptors : Path.staysBelow 0 (Path.components (l.descriptorLocation (placeholder false)))
  artifacts : ∀ classified,
    Path.staysBelow 0 (Path.components (l.artifactLocation (placeholder classified)))
  listings : Path.staysBelow 0 (Path.components (l.listingLocation "x" "x"))

/-- The patterns by default are level. -/
theorem level_default : ({} : Layout).Level where
  descriptors := by decide +kernel
  artifacts := by decide +kernel
  listings := by decide +kernel

theorem solid_x : Solid "x".toList := by decide

theorem alikeTokens_artifact {a : Artifact} (h : SolidArtifact a) :
    AlikeTokens (artifactTokens a) (artifactTokens (placeholder a.classifier.isSome)) := by
  have hfield : ∀ {text : String}, Solid text.toList → AlikeValues (some text) (some "x") :=
    fun htext => Or.inr ⟨_, _, rfl, rfl, htext, solid_x⟩
  have hclassifier : AlikeValues a.classifier (if a.classifier.isSome then some "x" else none) := by
    cases hc : a.classifier with
    | none => exact Or.inl rfl
    | some text => exact hfield (h.classifier text hc)
  exact .cons ⟨rfl, hfield h.module.group⟩ (.cons ⟨rfl, hfield h.module.name⟩
    (.cons ⟨rfl, hfield h.module.version⟩ (.cons ⟨rfl, hfield h.name⟩ (.cons ⟨rfl, hfield h.kind⟩
    (.cons ⟨rfl, hfield h.extension⟩ (.cons ⟨rfl, hclassifier⟩ .nil))))))

theorem alikeTokens_module {group name : String} (hg : Solid group.toList)
    (hn : Solid name.toList) : AlikeTokens (moduleTokens group name) (moduleTokens "x" "x") :=
  .cons ⟨rfl, Or.inr ⟨_, _, rfl, rfl, hg, solid_x⟩⟩
    (.cons ⟨rfl, Or.inr ⟨_, _, rfl, rfl, hn, solid_x⟩⟩ .nil)

variable {l : Layout}

theorem Level.artifactLocation (h : l.Level) {a : Artifact} (ha : SolidArtifact a) :
    Path.staysBelow 0 (Path.components (l.artifactLocation a)) = true := by
  rw [Layout.artifactLocation, (alike_render (alikeTokens_artifact ha) _).staysBelow_eq]
  exact h.artifacts _

theorem Level.descriptorLocation (h : l.Level) {a : Artifact} (ha : SolidArtifact a)
    (hc : a.classifier = none) :
    Path.staysBelow 0 (Path.components (l.descriptorLocation a)) = true := by
  rw [Layout.descriptorLocation, (alike_render (alikeTokens_artifact ha) _).staysBelow_eq, hc]
  exact h.descriptors

theorem Level.listingLocation (h : l.Level) {group name : String} (hg : Solid group.toList)
    (hn : Solid name.toList) :
    Path.staysBelow 0 (Path.components (l.listingLocation group name)) = true := by
  have hlocation : ∀ group name, l.listingLocation group name = String.ofList
      (render (moduleTokens group name) (moduleDirectory l.descriptorPattern.toList) ++
        "versions.toml".toList) := by
    intro group name
    rw [Layout.listingLocation, String.ofList_append, String.ofList_toList]
  have halike := (alike_render (alikeTokens_module hg hn)
    (moduleDirectory l.descriptorPattern.toList)).append (.refl "versions.toml".toList)
  rw [hlocation, halike.staysBelow_eq, ← hlocation]
  exact h.listings

end Layout

/-- The fields that a lookup puts into its location are solid. -/
def Query.Solid : Query α → Prop
  | .versions s => Layout.Solid s.group.toList ∧ Layout.Solid s.name.toList
  | .metadata c => Layout.SolidCoordinate c
  | .artifacts m _ => Layout.SolidCoordinate m.coordinate ∧ Layout.Solid m.extension.toList
  | .artifact a => Layout.SolidArtifact a

namespace Layout

/-- A descriptor adds fixed fields to those of its coordinate. -/
theorem SolidCoordinate.descriptor {c : Coordinate} (h : SolidCoordinate c) :
    SolidArtifact (Descriptor.artifactOf c) where
  module := h
  name := (by decide : Solid "module".toList)
  kind := (by decide : Solid "descriptor".toList)
  extension := (by decide : Solid "toml".toList)
  classifier _ hc := by cases hc

theorem solid_convention {category : Category} {convention : String × String}
    (h : category.convention? = some convention) :
    Solid convention.1.toList ∧ Solid convention.2.toList := by
  cases category with
  | configuration => cases h
  | documentation =>
    cases h
    exact ⟨(by decide : Solid "javadoc".toList), (by decide : Solid "javadoc".toList)⟩
  | sources =>
    cases h
    exact ⟨(by decide : Solid "source".toList), (by decide : Solid "sources".toList)⟩

/-- So does a companion that is probed for. -/
theorem SolidCoordinate.candidate {c : Coordinate} (h : SolidCoordinate c) {extension : String}
    (he : Solid extension.toList) {category : Category} {candidate : Artifact}
    (hcandidate : category.candidate? c extension = some candidate) : SolidArtifact candidate := by
  obtain ⟨convention, hconvention, rfl⟩ := Option.map_eq_some_iff.1 hcandidate
  obtain ⟨hkind, hclassifier⟩ := solid_convention hconvention
  exact ⟨h, h.name, hkind, he, fun _ hc => Option.some.inj hc ▸ hclassifier⟩

/-- A lookup with solid fields asks for a location that stays below its start. -/
theorem Level.call {l : Layout} (h : l.Level) {r : Repository σ}
    (hformat : r.format = Format.toml l) {q : Query α} (hq : q.Solid) {call : Call}
    (hcall : r.call? q = some call) :
    Path.staysBelow 0 (Path.components call.location) = true := by
  cases q with
  | versions s =>
    rw [← Option.some.inj hcall, hformat]
    exact h.listingLocation hq.1 hq.2
  | metadata c =>
    rw [← Option.some.inj hcall, hformat]
    exact h.descriptorLocation hq.descriptor rfl
  | artifacts m category =>
    obtain ⟨candidate, hcandidate, rfl⟩ := Option.map_eq_some_iff.1 hcall
    rw [Repository.probeCall, hformat]
    exact h.artifactLocation (hq.1.candidate hq.2 hcandidate)
  | artifact a =>
    rw [← Option.some.inj hcall, hformat]
    exact h.artifactLocation hq

end Layout

/-! ## The paths of a site -/

namespace Files.Path

/-- Slashes in front of a path add no names to it. -/
theorem components_dropSlashes (path : String) :
    components (String.ofList (path.toList.dropWhile (· == '/'))) = components path := by
  have hlist : ∀ cs : List Char,
      components (String.ofList (cs.dropWhile (· == '/'))) = components (String.ofList cs) := by
    intro cs
    induction cs with
    | nil => rfl
    | cons c cs ih =>
      by_cases hc : c = '/'
      · have hslash : String.ofList (c :: cs) = "" ++ "/" ++ String.ofList cs := by
          simp [hc]
        rw [hslash, components_slash, components_empty, List.nil_append, ← ih,
          List.dropWhile_cons_of_pos (by simp [hc])]
      · rw [List.dropWhile_cons_of_neg (by simp [hc])]
  rw [hlist, String.ofList_toList]

theorem isAbsolute_dropSlashes (path : String) :
    isAbsolute (String.ofList (path.toList.dropWhile (· == '/'))) = false := by
  rw [isAbsolute, String.toList_ofList]
  have hhead := List.head?_dropWhile_not (· == '/') path.toList
  cases hfirst : (path.toList.dropWhile (· == '/')).head? with
  | none => rfl
  | some c =>
    rw [hfirst] at hhead
    simpa using hhead

end Files.Path

namespace FileSite

variable {s : FileSite} {t : Tree} {location path : String}

theorem eq_join_of_pathOf (h : s.pathOf t location = .ok path) :
    t.isDirectory s.root = true ∧
      path = Path.join s.root (String.ofList (location.toList.dropWhile (· == '/'))) := by
  rw [pathOf] at h
  split at h
  · next hdirectory => exact ⟨hdirectory, (Except.ok.inj h).symm⟩
  · cases h

/-- The path of a location stays within the directory exactly if the names of the location do. -/
theorem within_iff (h : s.pathOf t location = .ok path) :
    Path.Within s.root path ↔ Path.staysBelow 0 (Path.components location) = true := by
  obtain ⟨-, rfl⟩ := eq_join_of_pathOf h
  have hrelative := Path.isAbsolute_dropSlashes location
  have hcomponents : Path.components (Path.join s.root
      (String.ofList (location.toList.dropWhile (· == '/')))) =
        Path.components s.root ++ Path.components location := by
    rw [Path.components_join hrelative, Path.components_dropSlashes]
  constructor
  · rintro ⟨-, names, hnames, hbelow⟩
    rw [hcomponents] at hnames
    rwa [List.append_cancel_left hnames]
  · exact fun hbelow => ⟨Path.isAbsolute_join hrelative, _, hcomponents, hbelow⟩

theorem prefix_of_find (h : s.pathOf t location = .ok path) (hw : Path.Within s.root path)
    {place : Place} {e : Entry} (hfind : t.find path = .ok (place, e)) :
    ∃ top, t.find s.root = .ok (top, .directory) ∧ top <+: place := by
  have hdirectory := (eq_join_of_pathOf h).1
  rw [Tree.isDirectory] at hdirectory
  split at hdirectory
  · next top htop => exact ⟨top, htop, Tree.prefix_of_within hw htop hfind⟩
  · cases hdirectory

/-- What a lookup can reach of a site in a directory. The path that it is made for stays within the
directory exactly if the names of the location do, which are not escaped. They do if the fields of
the lookup are solid and the patterns lead nowhere by themselves. Whatever is found by a path within
the directory stands at its place or below. -/
theorem confinement {l : Layout} {r : Repository σ} (hformat : r.format = Format.toml l)
    {q : Query α} {call : Call} (hcall : r.call? q = some call)
    (hpath : s.pathOf t call.location = .ok path) :
    (Path.Within s.root path ↔ Path.staysBelow 0 (Path.components call.location) = true) ∧
    (l.Level → q.Solid → Path.Within s.root path) ∧
    (Path.Within s.root path → ∀ place e, t.find path = .ok (place, e) →
      ∃ top, t.find s.root = .ok (top, .directory) ∧ top <+: place) := by
  have hnames := within_iff hpath
  refine ⟨hnames, fun hlevel hsolid => ?_, fun hw place e hfind => prefix_of_find hpath hw hfind⟩
  exact hnames.2 (hlevel.call hformat hsolid hcall)

/-! ## A repository in a directory -/

/-- The directory of the sample. -/
def sampleSite : FileSite := ⟨"repos/a"⟩

/-- The repository of the sample. -/
def sampleRepository : Repository Environment :=
  ⟨"a", Format.toml {}, Environment.memoryStore, Environment.fileTransport "repos/a" none, {}⟩

/-- A descriptor in the directory, and another one beside the directory. -/
def sampleTree : Tree where
  entries := [(["repos"], .directory), (["repos", "a"], .directory),
    (["repos", "a", "g"], .directory), (["repos", "a", "g", "lib"], .directory),
    (["repos", "a", "g", "lib", "1.0"], .directory),
    (["repos", "a", "g", "lib", "1.0", "module-1.0.toml"], .file [1] 0),
    (["repos", "lib"], .directory), (["repos", "lib", "1.0"], .directory),
    (["repos", "lib", "1.0", "module-1.0.toml"], .file [2] 0)]

/-- The descriptor of `g:lib:1.0` is found in the directory. -/
theorem descriptor_inside : ∃ path top place content,
    sampleSite.pathOf sampleTree ((Format.toml {}).descriptorLocation ⟨"g", "lib", "1.0"⟩) =
      .ok path ∧ Path.Within sampleSite.root path ∧
    sampleTree.find path = .ok (place, .file content 0) ∧
    sampleTree.find sampleSite.root = .ok (top, .directory) ∧ top <+: place := by
  have hlocation : (Format.toml {}).descriptorLocation ⟨"g", "lib", "1.0"⟩ =
    "g/lib/1.0/module-1.0.toml" := by decide +kernel
  have hpath : sampleSite.pathOf sampleTree
      ((Format.toml {}).descriptorLocation ⟨"g", "lib", "1.0"⟩) =
    .ok "repos/a/g/lib/1.0/module-1.0.toml" := by
    rw [hlocation]
    rfl
  have hsolid : (Query.metadata ⟨"g", "lib", "1.0"⟩).Solid :=
    ⟨by decide, by decide, by decide⟩
  have hcall : sampleRepository.call? (.metadata ⟨"g", "lib", "1.0"⟩) =
    some ⟨.fetch, "a", (Format.toml {}).descriptorLocation ⟨"g", "lib", "1.0"⟩⟩ := rfl
  obtain ⟨-, hwithin, hfound⟩ := confinement rfl hcall hpath
  have hw := hwithin Layout.level_default hsolid
  have hfind : sampleTree.find "repos/a/g/lib/1.0/module-1.0.toml" =
    .ok (["repos", "a", "g", "lib", "1.0", "module-1.0.toml"], .file [1] 0) := rfl
  obtain ⟨top, htop, hprefix⟩ := hfound hw _ _ hfind
  exact ⟨_, top, _, _, hpath, hw, hfind, htop, hprefix⟩

/-- `..` can be the group of a coordinate, and no pattern by default has it for a name, but the
descriptor of `..:lib:1.0` is read beside the directory. -/
theorem descriptor_outside :
    Coordinate.parse "..:lib:1.0" = .ok ⟨"..", "lib", "1.0"⟩ ∧
    ".." ∉ Path.components ({} : Layout).descriptorPattern ∧
    ".." ∉ Path.components ({} : Layout).artifactPattern ∧
    ∃ path, sampleSite.pathOf sampleTree
        ((Format.toml {}).descriptorLocation ⟨"..", "lib", "1.0"⟩) = .ok path ∧
      ¬ Path.Within sampleSite.root path ∧
      sampleSite.fetch sampleTree
        ((Format.toml {}).descriptorLocation ⟨"..", "lib", "1.0"⟩) = .ok (some [2]) ∧
      sampleTree.find path = .ok (["repos", "lib", "1.0", "module-1.0.toml"], .file [2] 0) := by
  have hlocation : (Format.toml {}).descriptorLocation ⟨"..", "lib", "1.0"⟩ =
    "../lib/1.0/module-1.0.toml" := by decide +kernel
  have hpath : sampleSite.pathOf sampleTree "../lib/1.0/module-1.0.toml" =
    .ok "repos/a/../lib/1.0/module-1.0.toml" := rfl
  rw [hlocation]
  refine ⟨rfl, by decide, by decide, _, hpath, ?_, rfl, rfl⟩
  rw [within_iff hpath]
  decide

end FileSite

/-- In a cache the fields are escaped, so that no entry is kept outside of it. -/
theorem Cache.Directory.entryPath_within (d : Cache.Directory) (repository : String)
    (request : Cache.Request) :
    Path.Within d.location (d.entryPath (.ofRequest repository request)) :=
  (d.entryPath_leadsBelow repository request).within

end ArtifactResolver
