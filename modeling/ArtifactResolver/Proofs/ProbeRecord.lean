import ArtifactResolver.ProbeRecord
import ArtifactResolver.Proofs.Ascending
import ArtifactResolver.Proofs.Toml.Lines

/-!
# Reading back records of probes

The statements of one artifact make up one table of the array, and the table is read as the
artifact, which belongs to the module version that the record is read for.
-/

namespace ArtifactResolver.ProbeRecord

open Ascending (IsAscending)
open Toml (ReadAs Statement Value Entries entriesToValues tablesToValues)

/-- The statements of the lines of an artifact. -/
def statementsOf (a : Artifact) : List Statement :=
  [.element ["artifacts"], .assign ["name"] (.string a.name), .assign ["type"] (.string a.kind),
    .assign ["extension"] (.string a.extension)] ++
  match a.classifier with
  | some classifier => [.assign ["classifier"] (.string classifier)]
  | none => []

/-- The table that the statements of an artifact make up. -/
def entriesOf (a : Artifact) : Entries :=
  [("name", .leaf (.string a.name)), ("type", .leaf (.string a.kind)),
    ("extension", .leaf (.string a.extension))] ++
  match a.classifier with
  | some classifier => [("classifier", .leaf (.string classifier))]
  | none => []

/-- The document after the statements of artifacts, the last one first. -/
def draftOf : List Artifact → Toml.Draft
  | [] => {}
  | a :: before => ⟨[("artifacts", .tables (entriesOf a) (before.map entriesOf))], ["artifacts"]⟩

theorem readAs_field {key text : String} {cs : List Char} {statements : List Statement}
    (hkey : key ∈ ["name", "type", "extension", "classifier"]) (h : ReadAs cs statements) :
    ReadAs (Toml.writeField key text ++ cs) (.assign [key] (.string text) :: statements) := by
  simp only [List.mem_cons, List.not_mem_nil, or_false] at hkey
  rcases hkey with rfl | rfl | rfl | rfl <;>
    exact h.field (by simp) (List.all_eq_true.1 (by decide))

theorem readAs_element {cs : List Char} {statements : List Statement} (h : ReadAs cs statements) :
    ReadAs ("[[artifacts]]\n".toList ++ cs) (.element ["artifacts"] :: statements) := by
  have hline : "[[artifacts]]\n".toList = "[[".toList ++ "artifacts".toList ++ "]]\n".toList := by
    simp
  rw [hline]
  exact h.element (by simp) (List.all_eq_true.1 (by decide))

theorem readAs_writeArtifact (a : Artifact) {cs : List Char} {statements : List Statement}
    (h : ReadAs cs statements) :
    ReadAs (writeArtifact a ++ cs) (statementsOf a ++ statements) := by
  unfold writeArtifact statementsOf
  cases a.classifier with
  | none =>
    simp only [List.append_assoc, List.cons_append, List.nil_append]
    exact readAs_element (readAs_field (by simp) (readAs_field (by simp)
      (readAs_field (by simp) h)))
  | some classifier =>
    simp only [List.append_assoc, List.cons_append, List.nil_append]
    exact readAs_element (readAs_field (by simp) (readAs_field (by simp)
      (readAs_field (by simp) (readAs_field (by simp) h))))

theorem readAs_writeArtifacts {artifacts : List Artifact} (h : artifacts ≠ []) :
    ReadAs (['\n'].intercalate (artifacts.map writeArtifact)) (artifacts.flatMap statementsOf) := by
  induction artifacts with
  | nil => exact absurd rfl h
  | cons a rest ih =>
    cases rest with
    | nil => simpa using readAs_writeArtifact a .nil
    | cons b rest =>
      rw [List.map_cons, List.map_cons, List.intercalate_cons_cons, List.append_assoc,
        List.flatMap_cons]
      exact readAs_writeArtifact a (ih (by simp)).blank

theorem add_element (before : List Artifact) :
    (draftOf before).add (.element ["artifacts"]) =
      some ⟨[("artifacts", .tables [] (before.map entriesOf))], ["artifacts"]⟩ := by
  cases before with
  | nil => simp [draftOf, Toml.Draft.add, Entries.openElement, Entries.change]
  | cons a before =>
    simp [draftOf, Toml.Draft.add, Entries.openElement, Entries.change, Entries.replace]

theorem add_field {key : String} {v : Value} {last : Entries} (h : last.lookup key = none)
    (earlier : List Entries) :
    (⟨[("artifacts", .tables last earlier)], ["artifacts"]⟩ : Toml.Draft).add (.assign [key] v) =
      some ⟨[("artifacts", .tables (last ++ [(key, .leaf v)]) earlier)], ["artifacts"]⟩ := by
  simp [Toml.Draft.add, Entries.change, Entries.assign, Entries.replace, h]

theorem foldlM_statementsOf (a : Artifact) (before : List Artifact) :
    (statementsOf a).foldlM Toml.Draft.add (draftOf before) = some (draftOf (a :: before)) := by
  rw [statementsOf, List.cons_append, List.foldlM_cons, add_element]
  simp only [List.cons_append, List.nil_append, List.foldlM_cons, Option.bind_eq_bind,
    Option.bind_some]
  rw [add_field rfl, Option.bind_some, add_field (by simp), Option.bind_some, add_field (by simp),
    Option.bind_some]
  cases hc : a.classifier with
  | none => simp [draftOf, entriesOf, hc]
  | some classifier =>
    rw [List.foldlM_cons, add_field (by simp)]
    simp [draftOf, entriesOf, hc]

theorem foldlM_flatMap_statementsOf (artifacts before : List Artifact) :
    (artifacts.flatMap statementsOf).foldlM Toml.Draft.add (draftOf before) =
      some (draftOf (artifacts.reverse ++ before)) := by
  induction artifacts generalizing before with
  | nil => rfl
  | cons a rest ih =>
    rw [List.flatMap_cons, List.foldlM_append, foldlM_statementsOf, List.reverse_cons,
      List.append_assoc]
    exact ih (a :: before)

theorem tablesToValues_eq (earlier : List Entries) (behind : List Value) :
    tablesToValues earlier behind =
      (earlier.reverse.map fun entries => .table (entriesToValues entries)) ++ behind := by
  induction earlier generalizing behind with
  | nil => simp [tablesToValues]
  | cons entries earlier ih => simp [tablesToValues, ih]

theorem ofStatements?_flatMap {artifacts : List Artifact} (h : artifacts ≠ []) :
    Toml.ofStatements? (artifacts.flatMap statementsOf) = some [("artifacts",
      .array (artifacts.map fun a => .table (entriesToValues (entriesOf a))))] := by
  have hrun := foldlM_flatMap_statementsOf artifacts []
  rw [Toml.ofStatements?]
  rw [List.append_nil] at hrun
  show Option.map _ (List.foldlM Toml.Draft.add (draftOf []) _) = _
  rw [hrun, Option.map_some]
  cases hr : artifacts.reverse with
  | nil => exact absurd (List.reverse_eq_nil_iff.1 hr) h
  | cons a before =>
    have hartifacts : artifacts = before.reverse ++ [a] := by
      rw [← List.reverse_reverse artifacts, hr, List.reverse_cons]
    simp [draftOf, entriesToValues, Toml.Node.toValue, tablesToValues_eq, hartifacts]

/-- The table of an artifact is read as the artifact, which then belongs to the module version. -/
theorem artifactOfValue_entriesOf (module : Coordinate) (a : Artifact) :
    artifactOfValue module (.table (entriesToValues (entriesOf a))) =
      .ok { a with module := module } := by
  rw [entriesOf]
  obtain ⟨m, name, kind, extension, classifier⟩ := a
  cases classifier <;> rfl

theorem readAs_write_nil : ReadAs (write []) [.assign ["artifacts"] (.array [])] := by
  have hwrite : write [] = ("artifacts".toList ++ ' ' :: '=' :: ' ' :: ['[', ']']) ++ ['\n'] := by
    simp [write]
  have hv : Toml.scanValue Toml.nestingLimit (['[', ']'] ++ ['\n']) =
      some (.array [], ['\n']) := by
    show Toml.scanValue (78 + 1) _ = _
    simp [Toml.scanValue, Toml.scanItems, Toml.skipTrivia?, Toml.isSpace]
  rw [hwrite]
  exact ReadAs.nil.assign (by simp) (List.all_eq_true.1 (by decide)) rfl hv

theorem dropByteOrderMark_write (artifacts : List Artifact) :
    Toml.dropByteOrderMark (write artifacts) = write artifacts := by
  cases artifacts with
  | nil => simp [write, Toml.dropByteOrderMark]
  | cons a rest =>
    have hstart : ∃ written, writeArtifact a = '[' :: written := by
      unfold writeArtifact
      simp
    obtain ⟨written, hw⟩ := hstart
    cases rest <;> simp [write, hw, Toml.dropByteOrderMark]

/-- The document of a record has the tables of its artifacts, in their order. -/
theorem parse_write (artifacts : List Artifact) :
    Toml.parse (String.ofList (write artifacts)) = .ok [("artifacts",
      .array (artifacts.map fun a => .table (entriesToValues (entriesOf a))))] := by
  have hstatements : ∀ {statements}, ReadAs (write artifacts) statements →
      Toml.statements? (write artifacts) = some statements := by
    intro statements h
    rw [Toml.statements?, dropByteOrderMark_write]
    exact h _ (Nat.lt_succ_self _)
  rw [Toml.parse, String.toList_ofList]
  cases artifacts with
  | nil =>
    rw [hstatements readAs_write_nil]
    simp [Toml.ofStatements?, Toml.Draft.add, Entries.change, Entries.assign, entriesToValues,
      Toml.Node.toValue]
  | cons a rest =>
    have hread : ReadAs (write (a :: rest)) ((a :: rest).flatMap statementsOf) :=
      readAs_writeArtifacts (List.cons_ne_nil a rest)
    rw [hstatements hread, Option.bind_some, ofStatements?_flatMap (List.cons_ne_nil a rest)]

/-- A record is read back as it was written, for whatever module version it is read. -/
theorem decode_encode (module : Coordinate) (artifacts : List Artifact) :
    decode module (encode artifacts) =
      .ok (Ascending.ofList (artifacts.map fun a => { a with module := module })) := by
  have hitems : ∀ artifacts : List Artifact,
      (artifacts.map fun a => Value.table (entriesToValues (entriesOf a))).mapM
        (artifactOfValue module) = .ok (artifacts.map fun a => { a with module := module }) := by
    intro artifacts
    induction artifacts with
    | nil => rfl
    | cons a rest ih =>
      rw [List.map_cons, List.mapM_cons, artifactOfValue_entriesOf, ih]
      rfl
  have hfields : (fields module).readAll [("artifacts",
      .array (artifacts.map fun a => Value.table (entriesToValues (entriesOf a))))] =
        .ok (some (artifacts.map fun a => { a with module := module })) := by
    have hlist : Value.list (artifactOfValue module)
        (.array (artifacts.map fun a => Value.table (entriesToValues (entriesOf a)))) =
          .ok (artifacts.map fun a => { a with module := module }) := hitems artifacts
    rw [Toml.Fields.readAll, List.foldlM_cons]
    simp only [fields, hlist]
    rfl
  rw [decode, encode, Descriptor.readDocument, Text.decode_encode]
  simp only [parse_write, Except.bind, hfields]
  rfl

/-! ## Sets -/

/-- The artifacts as those of another module version. -/
def movedTo (module : Coordinate) (artifacts : List Artifact) : List Artifact :=
  artifacts.map fun a => { a with module := module }

theorem movedTo_self {module : Coordinate} {artifacts : List Artifact}
    (h : ∀ a ∈ artifacts, a.module = module) : movedTo module artifacts = artifacts := by
  have hself : ∀ a ∈ artifacts, { a with module := module } = a := by
    intro a ha
    rw [← h a ha]
  exact (List.map_congr_left hself).trans (List.map_id artifacts)

/-- Artifacts of one module version compare by their other fields. -/
theorem compare_moved {a b : Artifact} (h : a.module = b.module) (module : Coordinate) :
    compare { a with module := module } { b with module := module } = compare a b := by
  have hmoved : compare module module = .eq := Std.ReflCmp.compare_self
  have hsame : compare a.module b.module = .eq := by
    rw [h]
    exact Std.ReflCmp.compare_self
  change (compare module module).then _ = (compare a.module b.module).then _
  rw [hmoved, hsame]
  rfl

/-- A set of artifacts of one module version is one for any other version, too. -/
theorem isAscending_movedTo {module : Coordinate} {set : List Artifact} (h : IsAscending set)
    (hmodule : ∀ a ∈ set, a.module = module) (other : Coordinate) :
    IsAscending (movedTo other set) := by
  unfold IsAscending movedTo
  rw [List.pairwise_map]
  refine h.imp_of_mem fun {a b} ha hb hlt => ?_
  rw [compare_moved ((hmodule a ha).trans (hmodule b hb).symm)]
  exact hlt

/-- The record of a set of artifacts of one module version is read back as that set, and for another
version as the set in which nothing but the version is replaced. -/
theorem decode_encode_set {module : Coordinate} {set : List Artifact} (h : IsAscending set)
    (hmodule : ∀ a ∈ set, a.module = module) :
    decode module (encode set) = .ok set ∧
      ∀ other, decode other (encode set) = .ok (movedTo other set) ∧
        IsAscending (movedTo other set) := by
  have hread : ∀ other, decode other (encode set) = .ok (movedTo other set) := by
    intro other
    have hset := Ascending.ofList_of_isAscending (isAscending_movedTo h hmodule other)
    rw [decode_encode]
    exact congrArg Except.ok hset
  refine ⟨?_, fun other => ⟨hread other, isAscending_movedTo h hmodule other⟩⟩
  have hself := hread module
  rwa [movedTo_self hmodule] at hself

/-- An artifact without a classifier and one with an empty one, with texts that must be quoted. -/
def sampleSet : List Artifact :=
  [⟨⟨"g", "m", "1"⟩, "a\"b'c", "jar", "", none⟩, ⟨⟨"g", "m", "1"⟩, "a\"b'c", "jar", "", some ""⟩]

/-- The two stay apart. -/
theorem sampleSet_read_back :
    IsAscending sampleSet ∧ (∀ a ∈ sampleSet, a.module = ⟨"g", "m", "1"⟩) ∧
      decode ⟨"g", "m", "1"⟩ (encode sampleSet) = .ok sampleSet ∧
      decode ⟨"h", "m", "2"⟩ (encode sampleSet) = .ok (movedTo ⟨"h", "m", "2"⟩ sampleSet) := by
  have hset : IsAscending sampleSet := by
    unfold IsAscending sampleSet
    decide
  have hmodule : ∀ a ∈ sampleSet, a.module = ⟨"g", "m", "1"⟩ := by
    unfold sampleSet
    decide
  obtain ⟨hread, hother⟩ := decode_encode_set hset hmodule
  exact ⟨hset, hmodule, hread, (hother ⟨"h", "m", "2"⟩).1⟩

end ArtifactResolver.ProbeRecord
